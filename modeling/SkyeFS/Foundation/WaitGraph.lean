import Mathlib.Logic.Relation

/-! Cycles of a waits-for relation. -/

set_option autoImplicit false

namespace Foundation.WaitGraph

open Relation

variable {Node : Type} {waits : Node → Node → Prop}

/-- Some node waits, directly or through others, for itself. -/
def Cyclic (waits : Node → Node → Prop) : Prop := ∃ node, TransGen waits node node

/-- Nodes that wait only for nodes of a higher rank do not wait for themselves. -/
theorem not_cyclic_of_rank (rank : Node → Nat) (rises : ∀ first second, waits first second → rank first < rank second) :
    ¬ Cyclic waits := by
  rintro ⟨node, path⟩
  have rising : ∀ last, TransGen waits node last → rank node < rank last := by
    intro last path
    induction path with
    | single edge => exact rises _ _ edge
    | tail _ edge ih => exact Nat.lt_trans ih (rises _ _ edge)
  exact Nat.lt_irrefl _ (rising node path)

open scoped Classical in
/-- A single node that waits, and for another one, makes no cycle. -/
theorem not_cyclic_of_single
    (single : ∀ first second third fourth, waits first second → waits third fourth → first = third ∧ second = fourth)
    (other : ∀ node, ¬ waits node node) : ¬ Cyclic waits := by
  refine not_cyclic_of_rank (fun node => if ∃ caller, waits caller node then 1 else 0) fun first second edge => ?_
  rw [if_neg, if_pos ⟨first, edge⟩]
  · exact Nat.one_pos
  · rintro ⟨caller, before⟩
    obtain ⟨rfl, rfl⟩ := single _ _ _ _ before edge
    exact other _ edge

end Foundation.WaitGraph
