import SkyeFS.Index.Mapping
import SkyeFS.Foundation.Transition
import Mathlib.Data.Option.Basic
import Mathlib.Order.Bounds.Basic

/-! Header tables under any sequence of operations are finite sets of indices.

A program works on any number of tables. Each operation on the packed bytes is an
operation on sets: a singleton, an insertion, a deletion or a union.
-/

set_option autoImplicit false

namespace SkyeFS.Index

open Foundation

inductive TableCall (Table : Type) where
  | init (table : Table) (zerothServer serverCount : UInt32)
  | update (table : Table) (newIndex : Nat)
  | remove (table : Table) (newIndex : Nat)
  | merge (curr update : Table)

/-- What a table stands for: its partitions and the server of partition zero. -/
structure PartitionSet where
  indices : Finset Nat
  zerothServer : UInt32

section
variable {Table : Type} [DecidableEq Table]

/-- The call on the tables in memory. A table must be initialized before it is used. -/
def callTable (memory : Table → Option GigaMapping) : TableCall Table → Option (Table → Option GigaMapping)
  | .init table zerothServer serverCount =>
      some (Function.update memory table (some (gigaInitMapping zerothServer serverCount)))
  | .update table newIndex =>
      (memory table).map fun mapping => Function.update memory table (some (gigaUpdateMapping mapping newIndex))
  | .remove table newIndex =>
      (memory table).map fun mapping => Function.update memory table (some (gigaUpdateMappingRemove mapping newIndex))
  | .merge curr update =>
      (memory curr).bind fun first => (memory update).map fun second =>
        Function.update memory curr (some (gigaUpdateCache first second))

/-- The call on sets. Only the initialization chooses the server of partition zero. -/
def callSet (memory : Table → Option PartitionSet) : TableCall Table → Option (Table → Option PartitionSet)
  | .init table zerothServer _ => some (Function.update memory table (some ⟨{0}, zerothServer⟩))
  | .update table newIndex =>
      (memory table).map fun set =>
        Function.update memory table (some { set with indices := insert newIndex set.indices })
  | .remove table newIndex =>
      (memory table).map fun set =>
        Function.update memory table (some { set with indices := set.indices.erase newIndex })
  | .merge curr update =>
      (memory curr).bind fun first => (memory update).map fun second =>
        Function.update memory curr (some { first with indices := first.indices ∪ second.indices })

end

/-- The index of the call lies in the array, and partition zero is never removed. -/
def TableCall.InBounds {Table : Type} : TableCall Table → Prop
  | .init _ _ _ | .merge _ _ => True
  | .update _ newIndex => newIndex < capacity
  | .remove _ newIndex => 0 < newIndex ∧ newIndex < capacity

instance {Table : Type} (call : TableCall Table) : Decidable call.InBounds :=
  match call with
  | .init _ _ _ | .merge _ _ => .isTrue trivial
  | .update _ newIndex => inferInstanceAs (Decidable (newIndex < capacity))
  | .remove _ newIndex => inferInstanceAs (Decidable (0 < newIndex ∧ newIndex < capacity))

/-- The bytes of the table say exactly what the set says. -/
structure GigaMapping.Refines (mapping : GigaMapping) (set : PartitionSet) : Prop where
  status : ∀ index, getBitStatus mapping.bitmap index = true ↔ index ∈ set.indices
  highest : ∃ index, getHighestIndex mapping.bitmap = some index ∧ IsGreatest (set.indices : Set Nat) index
  packed : ∀ slot, (mapping.bitmap.byte slot).getLsbD 7 = false
  root : (mapping.bitmap.byte 0).getLsbD 0 = true
  zerothServer : mapping.zerothServer = set.zerothServer

theorem GigaMapping.Valid.refines {mapping : GigaMapping} (valid : mapping.Valid) :
    mapping.Refines ⟨mapping.partitions, mapping.zerothServer⟩ where
  status _ := getBitStatus_iff
  highest := by
    obtain ⟨index, member, maximal, -⟩ := getRadixFromBmap_isSome valid
    exact ⟨index, (getHighestIndex_eq_some valid.packed).mpr ⟨member, maximal⟩, member, maximal⟩
  packed := valid.packed
  root := by
    have status := getBitStatus_iff.mpr valid.root
    rwa [getBitStatus_eq] at status
  zerothServer := rfl

/-- The simulation relation: the table is valid and the set is what it denotes. -/
structure GigaMapping.Denotes (mapping : GigaMapping) (set : PartitionSet) : Prop where
  valid : mapping.Valid
  same : set = ⟨mapping.partitions, mapping.zerothServer⟩

theorem GigaMapping.Denotes.refines {mapping : GigaMapping} {set : PartitionSet}
    (denotes : mapping.Denotes set) : mapping.Refines set := denotes.same ▸ denotes.valid.refines

theorem denotes_init (zerothServer serverCount : UInt32) :
    (gigaInitMapping zerothServer serverCount).Denotes ⟨{0}, zerothServer⟩ :=
  ⟨valid_init _ _, by rw [partitions_init]; rfl⟩

section
variable {mapping : GigaMapping} {set : PartitionSet} (denotes : mapping.Denotes set)
include denotes

theorem GigaMapping.Denotes.update {newIndex : Nat} (bounded : newIndex < capacity) :
    (gigaUpdateMapping mapping newIndex).Denotes { set with indices := insert newIndex set.indices } := by
  refine ⟨denotes.valid.update bounded, ?_⟩
  rw [partitions_update mapping bounded, denotes.same]
  rfl

theorem GigaMapping.Denotes.remove {newIndex : Nat} (positive : 0 < newIndex) (bounded : newIndex < capacity) :
    (gigaUpdateMappingRemove mapping newIndex).Denotes { set with indices := set.indices.erase newIndex } := by
  refine ⟨denotes.valid.remove bounded positive.ne', ?_⟩
  rw [partitions_remove mapping bounded, denotes.same]
  rfl

theorem GigaMapping.Denotes.merge {other : GigaMapping} {otherSet : PartitionSet}
    (also : other.Denotes otherSet) :
    (gigaUpdateCache mapping other).Denotes { set with indices := set.indices ∪ otherSet.indices } := by
  refine ⟨denotes.valid.merge also.valid, ?_⟩
  rw [partitions_merge, denotes.same, also.same]
  rfl

end

section
variable {Table : Type} [DecidableEq Table]

def MemoryDenotes (memory : Table → Option GigaMapping) (sets : Table → Option PartitionSet) : Prop :=
  ∀ table, Option.Rel GigaMapping.Denotes (memory table) (sets table)

theorem MemoryDenotes.write {memory : Table → Option GigaMapping} {sets : Table → Option PartitionSet}
    (denotes : MemoryDenotes memory sets) {mapping : GigaMapping} {set : PartitionSet}
    (written : mapping.Denotes set) (table : Table) :
    MemoryDenotes (Function.update memory table (some mapping)) (Function.update sets table (some set)) := by
  intro other
  by_cases same : other = table
  · subst same
    rw [Function.update_self, Function.update_self]
    exact .some written
  · rw [Function.update_of_ne same, Function.update_of_ne same]
    exact denotes other

theorem MemoryDenotes.call {memory : Table → Option GigaMapping} {sets : Table → Option PartitionSet}
    (denotes : MemoryDenotes memory sets) {call : TableCall Table} (bounded : call.InBounds) :
    Option.Rel MemoryDenotes (callTable memory call) (callSet sets call) := by
  -- Step lemma: both levels make the call or both lack the table, and the relation is kept.
  cases call with
  | init table zerothServer serverCount => exact .some (denotes.write (denotes_init _ _) table)
  | update table newIndex =>
    refine rel_map (denotes table) ?_
    intro mapping set related
    exact denotes.write (related.update bounded) table
  | remove table newIndex =>
    refine rel_map (denotes table) ?_
    intro mapping set related
    exact denotes.write (related.remove bounded.1 bounded.2) table
  | merge curr update =>
    refine rel_bind (denotes curr) ?_
    intro first firstSet related
    refine rel_map (denotes update) ?_
    intro second secondSet also
    exact denotes.write (related.merge also) curr

/-- Every sequence of calls on any tables, beginning with none, computes on the packed bytes
what the set operations compute, and runs exactly when they do. -/
theorem tables_refine_sets (calls : List (TableCall Table)) (bounded : ∀ call ∈ calls, call.InBounds) :
    Option.Rel (fun memory sets => ∀ table, Option.Rel GigaMapping.Refines (memory table) (sets table))
      (execute callTable (fun _ => none) calls) (execute callSet (fun _ => none) calls) := by
  have begun : MemoryDenotes (fun _ : Table => none) (fun _ => none) := fun _ => .none
  have related := execute_related (fun _ _ _ denotes inside => MemoryDenotes.call denotes inside) begun bounded
  apply rel_imp _ related
  intro memory sets denotes table
  exact rel_imp (fun _ _ => GigaMapping.Denotes.refines) (denotes table)

end

/-- A merge of two tables, one of them with the last bit of the array. -/
def mergedTables : List (TableCall Bool) :=
  [.init true 1 4, .update true 1028, .init false 1 4, .update false 3, .remove false 2, .merge false true]

theorem mergedTables_refine : ∃ memory mapping, execute callTable (fun _ => none) mergedTables = some memory ∧
    memory false = some mapping ∧ mapping.Refines ⟨{0, 3, 1028}, 1⟩ := by
  have related := tables_refine_sets mergedTables (by decide)
  obtain ⟨sets, computed, union⟩ : ∃ sets, execute callSet (fun _ => none) mergedTables = some sets ∧
      sets false = some ⟨(insert 3 {0} : Finset Nat).erase 2 ∪ insert 1028 {0}, 1⟩ := ⟨_, rfl, rfl⟩
  have indices : (insert 3 {0} : Finset Nat).erase 2 ∪ insert 1028 {0} = {0, 3, 1028} := by decide
  rw [indices] at union
  rw [computed] at related
  obtain ⟨memory, executed, tables⟩ := rel_some_right related
  obtain ⟨mapping, stored, refines⟩ := rel_some_right (union ▸ tables false)
  exact ⟨memory, mapping, executed, stored, refines⟩

end SkyeFS.Index
