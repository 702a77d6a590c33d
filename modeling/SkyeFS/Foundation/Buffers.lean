import Mathlib.Logic.Function.Basic

/-! Programs on buffers whose length nothing checks.

A cell is reached by the name of its buffer and an offset, and no instruction compares
the offset with the length that the buffer was declared with. A memory therefore has a
cell at every offset, negative ones too, and keeps the list of all accesses: a bound is a
statement about that list.
-/

set_option autoImplicit false

namespace Foundation

inductive AccessKind where
  | load
  | store
deriving DecidableEq

structure Access (Buffer : Type) where
  kind : AccessKind
  buffer : Buffer
  offset : Int
deriving DecidableEq

structure Memory {Buffer : Type} (Cell : Buffer → Type) where
  cells : (buffer : Buffer) → Int → Cell buffer
  accesses : List (Access Buffer)

/-- `for (i = 0; i < count; i++)`, with the variable that the body assigns. -/
def loop {σ α : Type} (body : Nat → α → StateM σ α) : Nat → α → StateM σ α
  | 0, start => pure start
  | count + 1, start => do
      let value ← loop body count start
      body count value

theorem loop_induction {σ α : Type} {body : Nat → α → StateM σ α} {count : Nat} {start : α} {state : σ}
    (inv : Nat → α → σ → Prop) (zero : inv 0 start state)
    (step : ∀ i < count, ∀ value state, inv i value state → inv (i + 1) (body i value state).1 (body i value state).2) :
    inv count (loop body count start state).1 (loop body count start state).2 := by
  induction count with
  | zero => exact zero
  | succ count ih =>
    have before := ih fun i below => step i (Nat.lt_succ_of_lt below)
    exact step count (Nat.lt_succ_self count) _ _ before

namespace Memory

variable {Buffer : Type} {Cell : Buffer → Type} {α β : Type}

def load (buffer : Buffer) (offset : Int) : StateM (Memory Cell) (Cell buffer) := fun memory =>
  (memory.cells buffer offset, { memory with accesses := memory.accesses ++ [⟨.load, buffer, offset⟩] })

section
variable [DecidableEq Buffer]

def store (buffer : Buffer) (offset : Int) (value : Cell buffer) : StateM (Memory Cell) Unit := fun memory =>
  ((), {
    cells := Function.update memory.cells buffer (Function.update (memory.cells buffer) offset value)
    accesses := memory.accesses ++ [⟨.store, buffer, offset⟩] })

/-- The initializer of a declared array. -/
def fill (buffer : Buffer) (length : Nat) (value : Cell buffer) : StateM (Memory Cell) Unit :=
  loop (fun i _ => store buffer i value) length ()

end

/-! ### What a program leaves in the cells -/

theorem bind_apply (first : StateM (Memory Cell) α) (next : α → StateM (Memory Cell) β) (memory : Memory Cell) :
    (first >>= next) memory = next (first memory).1 (first memory).2 := rfl

theorem pure_apply (value : α) (memory : Memory Cell) :
    (pure value : StateM (Memory Cell) α) memory = (value, memory) := rfl

@[simp] theorem load_value (buffer : Buffer) (offset : Int) (memory : Memory Cell) :
    (load buffer offset memory).1 = memory.cells buffer offset := rfl

@[simp] theorem load_cells (buffer : Buffer) (offset : Int) (memory : Memory Cell) :
    (load buffer offset memory).2.cells = memory.cells := rfl

section
variable [DecidableEq Buffer]

@[simp] theorem store_self (buffer : Buffer) (offset : Int) (value : Cell buffer) (memory : Memory Cell) :
    (store buffer offset value memory).2.cells buffer = Function.update (memory.cells buffer) offset value :=
  Function.update_self _ _ _

theorem store_other {buffer other : Buffer} (different : other ≠ buffer) (offset : Int) (value : Cell buffer)
    (memory : Memory Cell) : (store buffer offset value memory).2.cells other = memory.cells other :=
  Function.update_of_ne different _ _

theorem fill_other {buffer other : Buffer} (different : other ≠ buffer) (length : Nat) (value : Cell buffer)
    (memory : Memory Cell) : (fill buffer length value memory).2.cells other = memory.cells other := by
  refine loop_induction (fun _ _ (now : Memory Cell) => now.cells other = memory.cells other) rfl ?_
  intro i _ _ now same
  exact (store_other different i value now).trans same

end

/-! ### Which accesses a program makes -/

/-- Every access that the program adds is allowed. -/
def Confined (allowed : Access Buffer → Prop) (program : StateM (Memory Cell) α) : Prop :=
  ∀ memory, ∃ made, (program memory).2.accesses = memory.accesses ++ made ∧ ∀ access ∈ made, allowed access

namespace Confined
variable {allowed : Access Buffer → Prop}

theorem pure (value : α) : Confined allowed (Pure.pure value : StateM (Memory Cell) α) := by
  intro memory
  exact ⟨[], (List.append_nil _).symm, List.forall_mem_nil _⟩

theorem bind {first : StateM (Memory Cell) α} {next : α → StateM (Memory Cell) β} (one : Confined allowed first)
    (two : ∀ value, Confined allowed (next value)) : Confined allowed (first >>= next) := by
  intro memory
  obtain ⟨before, added, former⟩ := one memory
  obtain ⟨after, extended, later⟩ := two (first memory).1 (first memory).2
  refine ⟨before ++ after, ?_, List.forall_mem_append.mpr ⟨former, later⟩⟩
  rw [bind_apply, extended, added, List.append_assoc]

theorem loop {body : Nat → α → StateM (Memory Cell) α} {count : Nat} (start : α)
    (each : ∀ i < count, ∀ value, Confined allowed (body i value)) : Confined allowed (loop body count start) := by
  induction count with
  | zero => exact pure start
  | succ count ih =>
    have before := ih fun i below => each i (Nat.lt_succ_of_lt below)
    exact bind before (each count (Nat.lt_succ_self count))

theorem load {buffer : Buffer} {offset : Int} (fine : allowed ⟨.load, buffer, offset⟩) :
    Confined allowed (load buffer offset : StateM (Memory Cell) (Cell buffer)) :=
  fun _ => ⟨_, rfl, List.forall_mem_singleton.mpr fine⟩

section
variable [DecidableEq Buffer]

theorem store {buffer : Buffer} {offset : Int} {value : Cell buffer} (fine : allowed ⟨.store, buffer, offset⟩) :
    Confined allowed (store buffer offset value) :=
  fun _ => ⟨_, rfl, List.forall_mem_singleton.mpr fine⟩

theorem fill {buffer : Buffer} {length : Nat} {value : Cell buffer}
    (fine : ∀ i < length, allowed ⟨.store, buffer, i⟩) : Confined allowed (fill buffer length value) :=
  loop () fun i below _ => store (fine i below)

end

/-- What was accessed before the program stays in the list. -/
theorem mem_of_mem {program : StateM (Memory Cell) α} (confined : Confined allowed program) {memory : Memory Cell}
    {access : Access Buffer} (made : access ∈ memory.accesses) : access ∈ (program memory).2.accesses := by
  obtain ⟨added, extended, -⟩ := confined memory
  rw [extended]
  exact List.mem_append_left _ made

theorem allowed_of_mem {program : StateM (Memory Cell) α} (confined : Confined allowed program) {memory : Memory Cell}
    (fresh : memory.accesses = []) : ∀ access ∈ (program memory).2.accesses, allowed access := by
  obtain ⟨added, extended, fine⟩ := confined memory
  rw [extended, fresh]
  exact fine

end Confined

end Memory

end Foundation
