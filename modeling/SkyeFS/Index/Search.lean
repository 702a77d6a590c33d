import SkyeFS.Index.Splitting
import Mathlib.Order.Bounds.Basic

/-! Lookups on any table: what they search for, and what a split or a merge does to them.

The search starts at the radix of the highest set bit and walks to the parents. The
tables need not be closed under parents, and a byte may have a stray eighth bit that
stands for no index and only lets the search start deeper.
-/

set_option autoImplicit false

namespace SkyeFS.Index

open Foundation Foundation.SuffixTree

variable {Name : Type} (shahash : Name → Digest)

/-- Partitions 0 and 5, without the parent of 5. -/
def sparseTable : GigaMapping := gigaUpdateMapping (gigaInitMapping 0 2) 5

theorem valid_sparseTable : sparseTable.Valid := (valid_init 0 2).update (by decide)

theorem small_sparseTable : sparseTable.Small := (small_init 0 2).update (by decide)

def fiveDigest (_ : Unit) : Digest := Vector.replicate sha1HashSize 5#8

section
variable {mapping : GigaMapping}

/-- The lookup returns the largest partition among the remainders of the hash. A search from any radix that covers the
table finds the same partition, with any number of rounds that reaches the root. -/
theorem lookup_deepest_ancestor (valid : mapping.Valid) (small : mapping.Small) (filename : Name) :
    ∃ index, gigaGetIndexForFile shahash mapping filename = some index ∧
      IsGreatest {other | other ∈ mapping.partitions ∧ ∃ bits, other = hashNumber shahash filename % 2 ^ bits} index ∧
      ∀ radix rounds, (∀ other ∈ mapping.partitions, other < 2 ^ radix) →
        hashNumber shahash filename % 2 ^ radix < rounds →
        findPartition mapping.bitmap rounds (hashNumber shahash filename % 2 ^ radix) = some index := by
  obtain ⟨index, found⟩ := gigaGetIndexForFile_isSome shahash valid small filename
  have deepest := ((gigaGetIndexForFile_eq_some shahash valid).mp found).2
  refine ⟨index, found, ⟨⟨deepest.mem, suffix_iff_exists_mod.mp deepest.suffix⟩, ?_⟩, ?_⟩
  · rintro other ⟨member, remainder⟩
    exact deepest.maximal other member (suffix_iff_exists_mod.mpr remainder)
  · intro radix rounds covers enough
    obtain ⟨partition, walked, selected⟩ := findPartition_deepest valid.root enough
    rw [walked, ((deepest_mod covers).mp selected).unique deepest]

theorem sparse_lookup : ∃ index, gigaGetIndexForFile fiveDigest sparseTable () = some index ∧
    IsGreatest {other | other ∈ sparseTable.partitions ∧ ∃ bits, other = hashNumber fiveDigest () % 2 ^ bits} index := by
  obtain ⟨index, found, greatest, -⟩ := lookup_deepest_ancestor fiveDigest valid_sparseTable small_sparseTable ()
  exact ⟨index, found, greatest⟩

/-- A split moves the names that were in the split partition and migrate, and no others. -/
theorem split_through_lookup (root : 0 ∈ mapping.partitions) (small : mapping.Small) {index child : Nat}
    (split : gigaIndexForSplitting mapping index = some child) (bounded : child < 2 ^ (maxRadix - 1))
    (filename : Name) :
    gigaGetIndexForFile shahash (gigaUpdateMapping mapping child) filename =
        (if gigaGetIndexForFile shahash mapping filename = some index ∧
            gigaFileMigrationStatus shahash filename child = some true then some child
          else gigaGetIndexForFile shahash mapping filename) ∧
      (gigaGetIndexForFile shahash (gigaUpdateMapping mapping child) filename ≠
          gigaGetIndexForFile shahash mapping filename ↔
        gigaGetIndexForFile shahash mapping filename = some index ∧
          gigaFileMigrationStatus shahash filename child = some true) ∧
      (mapping.bitmap.Packed → (gigaGetIndexForFile shahash mapping filename).isSome) := by
  obtain ⟨present, missing, -⟩ := gigaIndexForSplitting_some split
  have law : gigaGetIndexForFile shahash (gigaUpdateMapping mapping child) filename =
      if gigaGetIndexForFile shahash mapping filename = some index ∧
          gigaFileMigrationStatus shahash filename child = some true then some child
        else gigaGetIndexForFile shahash mapping filename := by
    rw [gigaGetIndexForFile_split shahash root split bounded, gigaFileMigrationStatus_eq shahash bounded]
    cases gigaGetIndexForFile shahash mapping filename with
    | none => rfl
    | some before =>
      simp only [Option.map_some, Option.some.injEq, decide_eq_true_iff]
      split <;> rfl
  refine ⟨law, ?_, ?_⟩
  · rw [law]
    split
    · rename_i moved
      refine ⟨fun _ => moved, fun _ same => ?_⟩
      rw [moved.1, Option.some.injEq] at same
      rw [same] at missing
      exact missing present
    · rename_i stays
      exact ⟨fun changed => absurd rfl changed, fun moved => absurd moved stays⟩
  · intro packed
    obtain ⟨selected, found⟩ := gigaGetIndexForFile_isSome shahash ⟨packed, root⟩ small filename
    rw [found]
    rfl

theorem sparse_split : gigaIndexForSplitting sparseTable 0 = some 1 ∧
    gigaGetIndexForFile fiveDigest (gigaUpdateMapping sparseTable 1) () =
      if gigaGetIndexForFile fiveDigest sparseTable () = some 0 ∧ gigaFileMigrationStatus fiveDigest () 1 = some true
      then some 1 else gigaGetIndexForFile fiveDigest sparseTable () := by
  have split : gigaIndexForSplitting sparseTable 0 = some 1 := by decide +kernel
  exact ⟨split, (split_through_lookup fiveDigest valid_sparseTable.root small_sparseTable split (by decide) ()).1⟩

end

/-! ### Merged tables -/

theorem getLsbD_merge (curr update : GigaMapping) (slot bit : Nat) :
    ((gigaUpdateCache curr update).bitmap.byte slot).getLsbD bit =
      ((curr.bitmap.byte slot).getLsbD bit || (update.bitmap.byte slot).getLsbD bit) := by
  rw [gigaUpdateCache, byte_zipWith, BitVec.getLsbD_or]

theorem serverCount_merge_le {curr update : GigaMapping} {bound : UInt32} :
    (gigaUpdateCache curr update).serverCount ≤ bound ↔ curr.serverCount ≤ bound ∧ update.serverCount ≤ bound := by
  simp only [gigaUpdateCache]
  split
  · rename_i less
    exact ⟨fun low => ⟨UInt32.le_of_lt (UInt32.lt_of_lt_of_le less low), low⟩, And.right⟩
  · rename_i above
    exact ⟨fun low => ⟨low, UInt32.le_trans (UInt32.not_lt.mp above) low⟩, And.left⟩

theorem getLsbD_foldl_merge (first : GigaMapping) (updates : List GigaMapping) (slot bit : Nat) :
    ((updates.foldl gigaUpdateCache first).bitmap.byte slot).getLsbD bit = true ↔
      ∃ table ∈ first :: updates, (table.bitmap.byte slot).getLsbD bit = true := by
  induction updates generalizing first with
  | nil => simp
  | cons update rest ih =>
    rw [List.foldl_cons, ih]
    simp only [List.exists_mem_cons_iff, getLsbD_merge, Bool.or_eq_true, or_assoc]

theorem serverCount_foldl_merge (first : GigaMapping) (updates : List GigaMapping) (bound : UInt32) :
    (updates.foldl gigaUpdateCache first).serverCount ≤ bound ↔
      ∀ table ∈ first :: updates, table.serverCount ≤ bound := by
  induction updates generalizing first with
  | nil => simp
  | cons update rest ih =>
    rw [List.foldl_cons, ih]
    simp only [List.forall_mem_cons, serverCount_merge_le, and_assoc]

theorem bitmap_ext {first second : Bitmap}
    (same : ∀ slot bit, (first.byte slot).getLsbD bit = (second.byte slot).getLsbD bit) : first = second := by
  apply Vector.ext
  intro slot inside
  apply BitVec.eq_of_getLsbD_eq
  intro bit _
  have here := same slot bit
  simpa [Bitmap.byte, inside] using here

/-- Lookups on two tables and on the merged one agree on the failures, and otherwise the deeper partition wins. -/
theorem gigaGetIndexForFile_merge {curr update : GigaMapping} (rootCurr : 0 ∈ curr.partitions)
    (rootUpdate : 0 ∈ update.partitions) (filename : Name) :
    gigaGetIndexForFile shahash (gigaUpdateCache curr update) filename =
      Option.map₂ max (gigaGetIndexForFile shahash curr filename) (gigaGetIndexForFile shahash update filename) := by
  have root : 0 ∈ (gigaUpdateCache curr update).partitions := by
    rw [partitions_merge]
    exact Finset.mem_union_left _ rootCurr
  ext index
  rw [gigaGetIndexForFile_eq_some_of_root shahash root, partitions_merge, Option.map₂_eq_some_iff]
  simp only [Option.mem_def, gigaGetIndexForFile_eq_some_of_root shahash rootCurr,
    gigaGetIndexForFile_eq_some_of_root shahash rootUpdate]
  constructor
  · rintro ⟨within, deepest⟩
    obtain ⟨inCurr, inUpdate⟩ := Bitmap.within_zipWith.mp within
    obtain ⟨first, one⟩ := exists_deepest rootCurr (hashNumber shahash filename)
    obtain ⟨second, two⟩ := exists_deepest rootUpdate (hashNumber shahash filename)
    exact ⟨first, second, ⟨inCurr, one⟩, ⟨inUpdate, two⟩, (one.union two).unique deepest⟩
  · rintro ⟨first, second, ⟨inCurr, one⟩, ⟨inUpdate, two⟩, rfl⟩
    exact ⟨Bitmap.within_zipWith.mpr ⟨inCurr, inUpdate⟩, one.union two⟩

/-- A stale table gives an ancestor of what the current one gives. -/
theorem exists_getParentIndex {stale current : GigaMapping} (rootStale : 0 ∈ stale.partitions)
    (rootCurrent : 0 ∈ current.partitions) (subset : stale.partitions ⊆ current.partitions) {filename : Name}
    {low high : Nat} (before : gigaGetIndexForFile shahash stale filename = some low)
    (after : gigaGetIndexForFile shahash current filename = some high) : ∃ steps, getParentIndex^[steps] high = low := by
  have one := ((gigaGetIndexForFile_eq_some_of_root shahash rootStale).mp before).2
  have two := ((gigaGetIndexForFile_eq_some_of_root shahash rootCurrent).mp after).2
  have suffix : Suffix low high := one.suffix.of_le two.suffix (one.mono subset two)
  rw [funext getParentIndex_eq]
  exact suffix.exists_iterate

/-- For tables with partition zero: lookups on the merged table give the deeper one of the two partitions, merging in
any order and any number of times gives the same bytes and the same count of servers, and a table that knows less gives
an ancestor. Packed tables below the radix bound always give a partition. -/
theorem merge_routing {curr update : GigaMapping} (rootCurr : 0 ∈ curr.partitions) (rootUpdate : 0 ∈ update.partitions)
    (smallCurr : curr.Small) (smallUpdate : update.Small) :
    (∀ filename, gigaGetIndexForFile shahash (gigaUpdateCache curr update) filename =
      Option.map₂ max (gigaGetIndexForFile shahash curr filename) (gigaGetIndexForFile shahash update filename)) ∧
    (∀ first second updates others, (∀ table, table ∈ first :: updates ↔ table ∈ second :: others) →
      (List.foldl gigaUpdateCache first updates).bitmap = (List.foldl gigaUpdateCache second others).bitmap ∧
        (List.foldl gigaUpdateCache first updates).serverCount =
          (List.foldl gigaUpdateCache second others).serverCount) ∧
    (curr.partitions ⊆ update.partitions → ∀ filename low high, gigaGetIndexForFile shahash curr filename = some low →
      gigaGetIndexForFile shahash update filename = some high → ∃ steps, getParentIndex^[steps] high = low) ∧
    (curr.bitmap.Packed → update.bitmap.Packed → ∀ filename, (gigaGetIndexForFile shahash curr filename).isSome ∧
      (gigaGetIndexForFile shahash update filename).isSome) := by
  refine ⟨gigaGetIndexForFile_merge shahash rootCurr rootUpdate, ?_, ?_, ?_⟩
  · intro first second updates others same
    constructor
    · apply bitmap_ext
      intro slot bit
      rw [Bool.eq_iff_iff, getLsbD_foldl_merge, getLsbD_foldl_merge]
      simp only [same]
    · apply UInt32.le_antisymm
      · rw [serverCount_foldl_merge]
        intro table member
        exact (serverCount_foldl_merge second others _).mp (UInt32.le_refl _) table ((same table).mp member)
      · rw [serverCount_foldl_merge]
        intro table member
        exact (serverCount_foldl_merge first updates _).mp (UInt32.le_refl _) table ((same table).mpr member)
  · intro subset filename low high before after
    exact exists_getParentIndex shahash rootCurr rootUpdate subset before after
  · intro packedCurr packedUpdate filename
    rw [lookup_isSome_iff shahash rootCurr, lookup_isSome_iff shahash rootUpdate, packedCurr.within_iff,
      packedUpdate.within_iff]
    exact ⟨smallCurr, smallUpdate⟩

/-- A client that knows partition 0 only learns partition 5. -/
theorem sparse_merge :
    gigaGetIndexForFile fiveDigest (gigaUpdateCache (gigaInitMapping 0 2) sparseTable) () =
      Option.map₂ max (gigaGetIndexForFile fiveDigest (gigaInitMapping 0 2) ())
        (gigaGetIndexForFile fiveDigest sparseTable ()) :=
  (merge_routing fiveDigest (valid_init 0 2).root valid_sparseTable.root (small_init 0 2) small_sparseTable).1 ()

end SkyeFS.Index
