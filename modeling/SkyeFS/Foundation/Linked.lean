import Mathlib.Data.List.Basic
import Mathlib.Logic.Function.Basic

/-! Doubly linked lists in memory.

The links are functions of the address of a cell. A segment is a list of cells that
are linked both ways, with given neighbours at its two ends; what is done to cells
outside of it does not matter. Pushing in front, appending at the tail and unlinking a
cell in the middle take a segment to a segment, and following the links from its head
visits its cells.
-/

set_option autoImplicit false

namespace Foundation

structure Links (Addr : Type) where
  next : Addr → Option Addr
  prev : Addr → Option Addr

namespace Links

variable {Addr : Type} [DecidableEq Addr] {links other : Links Addr}

def setNext (links : Links Addr) (cell : Addr) (target : Option Addr) : Links Addr :=
  ⟨Function.update links.next cell target, links.prev⟩

def setPrev (links : Links Addr) (cell : Addr) (target : Option Addr) : Links Addr :=
  ⟨links.next, Function.update links.prev cell target⟩

/-- Write the link of the cell behind this pointer, if there is one. -/
def setNextOf (links : Links Addr) (pointer : Option Addr) (target : Option Addr) : Links Addr :=
  match pointer with
  | some cell => links.setNext cell target
  | none => links

def setPrevOf (links : Links Addr) (pointer : Option Addr) (target : Option Addr) : Links Addr :=
  match pointer with
  | some cell => links.setPrev cell target
  | none => links

/-- The new cell goes in front of the head. -/
def push (links : Links Addr) (head : Option Addr) (cell : Addr) : Links Addr :=
  ((links.setNext cell head).setPrev cell none).setPrevOf head (some cell)

/-- The new cell goes behind the tail. -/
def append (links : Links Addr) (tail : Option Addr) (cell : Addr) : Links Addr :=
  ((links.setNext cell none).setNextOf tail (some cell)).setPrev cell tail

/-- The neighbours of the cell are linked to each other. -/
def unlink (links : Links Addr) (cell : Addr) : Links Addr :=
  (links.setNextOf (links.prev cell) (links.next cell)).setPrevOf (links.next cell) (links.prev cell)

/-- Follow the links for at most so many cells. -/
def walk (links : Links Addr) : Nat → Option Addr → List Addr
  | 0, _ => []
  | _ + 1, none => []
  | steps + 1, some cell => cell :: links.walk steps (links.next cell)

/-- The cells are linked both ways, between these two neighbours. -/
def Segment (links : Links Addr) : Option Addr → List Addr → Option Addr → Prop
  | _, [], _ => True
  | before, cell :: rest, after =>
      links.prev cell = before ∧ links.next cell = rest.head?.or after ∧ Segment links (some cell) rest after

def Same (links other : Links Addr) (cell : Addr) : Prop :=
  other.next cell = links.next cell ∧ other.prev cell = links.prev cell

omit [DecidableEq Addr] in
theorem Segment.frame {before after : Option Addr} {cells : List Addr} (segment : links.Segment before cells after)
    (same : ∀ cell ∈ cells, links.Same other cell) : other.Segment before cells after := by
  induction cells generalizing before with
  | nil => trivial
  | cons cell rest ih =>
    obtain ⟨back, forth, more⟩ := segment
    obtain ⟨next, prev⟩ := same cell List.mem_cons_self
    exact ⟨prev.trans back, next.trans forth, ih more fun other later => same other (List.mem_cons_of_mem _ later)⟩

omit [DecidableEq Addr] in
theorem segment_append {before after : Option Addr} {front back : List Addr} :
    links.Segment before (front ++ back) after ↔
      links.Segment before front (back.head?.or after) ∧ links.Segment (front.getLast?.or before) back after := by
  induction front generalizing before with
  | nil => simp [Segment]
  | cons cell rest ih =>
    have last : (cell :: rest).getLast?.or before = rest.getLast?.or (some cell) := by
      rw [List.getLast?_cons]
      cases rest.getLast? <;> rfl
    simp only [List.cons_append, Segment, ih, List.head?_append, Option.or_assoc, last, and_assoc]

omit [DecidableEq Addr] in
theorem Segment.walk {before : Option Addr} {cells : List Addr} (segment : links.Segment before cells none) {steps : Nat}
    (enough : cells.length ≤ steps) : links.walk steps cells.head? = cells := by
  induction cells generalizing before steps with
  | nil => cases steps <;> rfl
  | cons cell rest ih =>
    obtain ⟨-, forth, more⟩ := segment
    cases steps with
    | zero => exact absurd enough (Nat.not_succ_le_zero _)
    | succ steps =>
      rw [Option.or_none] at forth
      rw [List.head?_cons, Links.walk, forth, ih more (Nat.le_of_succ_le_succ enough)]

theorem same_setNext {cell target : Addr} {pointer : Option Addr} (ne : target ≠ cell) :
    links.Same (links.setNext cell pointer) target :=
  ⟨Function.update_of_ne ne _ _, rfl⟩

theorem same_setPrev {cell target : Addr} {pointer : Option Addr} (ne : target ≠ cell) :
    links.Same (links.setPrev cell pointer) target :=
  ⟨rfl, Function.update_of_ne ne _ _⟩

theorem same_setNextOf {cell : Addr} {pointer target : Option Addr} (ne : pointer ≠ some cell) :
    links.Same (links.setNextOf pointer target) cell := by
  cases pointer with
  | none => exact ⟨rfl, rfl⟩
  | some written => exact same_setNext fun equal => ne (congrArg some equal.symm)

theorem same_setPrevOf {cell : Addr} {pointer target : Option Addr} (ne : pointer ≠ some cell) :
    links.Same (links.setPrevOf pointer target) cell := by
  cases pointer with
  | none => exact ⟨rfl, rfl⟩
  | some written => exact same_setPrev fun equal => ne (congrArg some equal.symm)

omit [DecidableEq Addr] in
theorem Same.trans {third : Links Addr} {cell : Addr} (first : links.Same other cell) (second : other.Same third cell) :
    links.Same third cell :=
  ⟨second.1.trans first.1, second.2.trans first.2⟩

theorem Segment.setPrevOf_head {before after target : Option Addr} {cells : List Addr}
    (segment : links.Segment before cells after) (distinct : cells.Nodup) :
    (links.setPrevOf cells.head? target).Segment target cells after := by
  cases cells with
  | nil => trivial
  | cons cell rest =>
    obtain ⟨-, forth, more⟩ := segment
    have fresh := (List.nodup_cons.mp distinct).1
    refine ⟨Function.update_self _ _ _, forth, more.frame fun other later => same_setPrev ?_⟩
    exact fun equal => fresh (equal ▸ later)

theorem Segment.setNextOf_last {before after target : Option Addr} {cells : List Addr}
    (segment : links.Segment before cells after) (distinct : cells.Nodup) :
    (links.setNextOf cells.getLast? target).Segment before cells target := by
  induction cells generalizing before with
  | nil => trivial
  | cons cell rest ih =>
    obtain ⟨back, forth, more⟩ := segment
    obtain ⟨fresh, others⟩ := List.nodup_cons.mp distinct
    cases rest with
    | nil => exact ⟨back, Function.update_self _ _ _, trivial⟩
    | cons second rest =>
      have untouched : links.Same (links.setNextOf (second :: rest).getLast? target) cell := by
        apply same_setNextOf
        intro last
        exact fresh (List.mem_of_getLast? last)
      rw [List.getLast?_cons_cons]
      exact ⟨untouched.2.trans back, untouched.1.trans forth, ih more others⟩

omit [DecidableEq Addr] in
theorem ne_head_of_nodup {cell : Addr} {cells : List Addr} (distinct : (cell :: cells).Nodup) :
    cells.head? ≠ some cell := by
  intro head
  exact (List.nodup_cons.mp distinct).1 (List.mem_of_head? head)

omit [DecidableEq Addr] in
theorem ne_last_of_nodup {cell : Addr} {cells : List Addr} (distinct : (cell :: cells).Nodup) :
    cells.getLast? ≠ some cell := by
  intro last
  exact (List.nodup_cons.mp distinct).1 (List.mem_of_getLast? last)

theorem same_push {head : Option Addr} {cell target : Addr} (new : target ≠ cell) (old : head ≠ some target) :
    links.Same (links.push head cell) target :=
  ((same_setNext new).trans (same_setPrev new)).trans (same_setPrevOf old)

theorem Segment.push {cells : List Addr} {cell : Addr} (segment : links.Segment none cells none)
    (distinct : (cell :: cells).Nodup) : (links.push cells.head? cell).Segment none (cell :: cells) none := by
  obtain ⟨fresh, others⟩ := List.nodup_cons.mp distinct
  have kept := @same_setPrevOf Addr _ ((links.setNext cell cells.head?).setPrev cell none) cell cells.head? (some cell)
    (ne_head_of_nodup distinct)
  have written : ((links.setNext cell cells.head?).setPrev cell none).Segment none cells none := by
    apply segment.frame
    intro other old
    have ne : other ≠ cell := fun equal => fresh (equal ▸ old)
    exact (same_setNext ne).trans (same_setPrev ne)
  refine ⟨kept.2.trans (Function.update_self _ _ _), ?_, written.setPrevOf_head others⟩
  rw [Option.or_none]
  exact kept.1.trans (Function.update_self _ _ _)

theorem Segment.append {before : Option Addr} {cells : List Addr} {cell : Addr} (segment : links.Segment before cells none)
    (distinct : (cell :: cells).Nodup) (ends : before = none ∨ cells ≠ []) :
    (links.append cells.getLast? cell).Segment before (cells ++ [cell]) none := by
  obtain ⟨fresh, others⟩ := List.nodup_cons.mp distinct
  have apart : ∀ other ∈ cells, other ≠ cell := fun other old equal => fresh (equal ▸ old)
  have started : (links.setNext cell none).Segment before cells none :=
    segment.frame fun other old => same_setNext (apart other old)
  have linked : (links.append cells.getLast? cell).Segment before cells (some cell) :=
    (started.setNextOf_last others).frame fun other old => same_setPrev (apart other old)
  have kept := @same_setNextOf Addr _ (links.setNext cell none) cell cells.getLast? (some cell) (ne_last_of_nodup distinct)
  have last : cells.getLast?.or before = cells.getLast? := by
    rcases ends with rfl | some_
    · exact Option.or_none
    · rw [List.getLast?_eq_some_getLast some_]
      rfl
  apply segment_append.mpr
  refine ⟨linked, ?_, ?_, trivial⟩
  · rw [last]
    exact Function.update_self _ _ _
  · exact kept.1.trans (Function.update_self _ _ _)

theorem same_unlink {cell target : Addr} (back : links.prev cell ≠ some target) (forth : links.next cell ≠ some target) :
    links.Same (links.unlink cell) target :=
  (same_setNextOf back).trans (same_setPrevOf forth)

theorem Segment.join {before after behind ahead : Option Addr} {front back : List Addr}
    (first : links.Segment before front behind) (second : links.Segment ahead back after)
    (distinct : (front ++ back).Nodup) :
    ((links.setNextOf front.getLast? (back.head?.or after)).setPrevOf back.head?
      (front.getLast?.or before)).Segment before (front ++ back) after := by
  obtain ⟨ofFront, ofBack, disjoint⟩ := List.nodup_append.mp distinct
  apply segment_append.mpr
  constructor
  · apply (first.setNextOf_last ofFront).frame
    intro cell old
    apply same_setPrevOf
    intro head
    exact disjoint cell old cell (List.mem_of_head? head) rfl
  · refine Segment.setPrevOf_head (second.frame ?_) ofBack
    intro cell old
    apply same_setNextOf
    intro last
    exact disjoint cell (List.mem_of_getLast? last) cell old rfl

omit [DecidableEq Addr] in
theorem Segment.neighbours {front back : List Addr} {cell : Addr}
    (segment : links.Segment none (front ++ cell :: back) none) :
    links.prev cell = front.getLast? ∧ links.next cell = back.head? := by
  obtain ⟨-, behind, ahead, -⟩ := segment_append.mp segment
  rw [Option.or_none] at behind ahead
  exact ⟨behind, ahead⟩

theorem Segment.unlink {front back : List Addr} {cell : Addr} (segment : links.Segment none (front ++ cell :: back) none)
    (distinct : (front ++ cell :: back).Nodup) : (links.unlink cell).Segment none (front ++ back) none := by
  obtain ⟨behind, ahead⟩ := segment.neighbours
  obtain ⟨first, -, -, second⟩ := segment_append.mp segment
  have joined := first.join second (distinct.sublist ((List.sublist_cons_self cell back).append_left front))
  rw [Option.or_none, Option.or_none] at joined
  rw [Links.unlink, behind, ahead]
  exact joined

end Links

end Foundation
