import Mathlib.Data.Nat.Size
import Mathlib.Data.Finset.Basic
import Mathlib.Data.Finset.Max
import Mathlib.Data.Finset.Interval

/-! The binary suffix tree over the natural numbers.

Node zero is the root. Every other node hangs below the node obtained by clearing
its highest one bit, so the ancestors of a node are its binary suffixes. A key
selects, in a finite set of nodes, the deepest one that is a suffix of the key.
-/

set_option autoImplicit false

namespace Foundation.SuffixTree

/-- The number of binary digits of a node. -/
def depth (node : Nat) : Nat := node.size

/-- Clear the highest one bit; the root is its own parent. -/
def parent (node : Nat) : Nat := if node = 0 then 0 else node - 2 ^ node.log2

/-- The node written with `depth node` digits ends the binary form of `key`. -/
def Suffix (node key : Nat) : Prop := key % 2 ^ depth node = node

instance (node key : Nat) : Decidable (Suffix node key) :=
  inferInstanceAs (Decidable (key % 2 ^ depth node = node))

theorem depth_le_iff {node bound : Nat} : depth node ≤ bound ↔ node < 2 ^ bound := Nat.size_le

theorem depth_eq_log2 {node : Nat} (positive : node ≠ 0) : depth node = node.log2 + 1 := by
  apply Nat.le_antisymm
  · exact depth_le_iff.mpr Nat.lt_log2_self
  · exact Nat.succ_le_of_lt (Nat.lt_size.mpr (Nat.log2_self_le positive))

theorem parent_lt {node : Nat} (positive : node ≠ 0) : parent node < node := by
  have power : 0 < 2 ^ node.log2 := Nat.two_pow_pos _
  simp only [parent, if_neg positive]
  omega

theorem parent_eq_mod {node : Nat} (positive : node ≠ 0) : parent node = node % 2 ^ node.log2 := by
  have low := Nat.log2_self_le positive
  have high : node < 2 ^ (node.log2 + 1) := Nat.lt_log2_self
  have small : node - 2 ^ node.log2 < 2 ^ node.log2 := by rw [Nat.pow_succ] at high; omega
  rw [Nat.mod_eq_sub_mod low, Nat.mod_eq_of_lt small]
  simp only [parent, if_neg positive]

theorem parent_add {node radix : Nat} (small : node < 2 ^ radix) : parent (node + 2 ^ radix) = node := by
  have power : 0 < 2 ^ radix := Nat.two_pow_pos _
  have positive : node + 2 ^ radix ≠ 0 := by omega
  have top : (node + 2 ^ radix).log2 = radix :=
    (Nat.log2_eq_iff positive).mpr ⟨by omega, by rw [Nat.pow_succ]; omega⟩
  simp [parent, top]

theorem Suffix.le {node key : Nat} (suffix : Suffix node key) : node ≤ key := by
  rw [← suffix]
  exact Nat.mod_le _ _

theorem suffix_self (node : Nat) : Suffix node node := Nat.mod_eq_of_lt (depth_le_iff.mp le_rfl)

theorem suffix_zero (key : Nat) : Suffix 0 key := by simp [Suffix, depth, Nat.mod_one]

theorem suffix_mod {node key width : Nat} (fits : node < 2 ^ width) :
    Suffix node (key % 2 ^ width) ↔ Suffix node key := by
  rw [Suffix, Suffix, Nat.mod_mod_of_dvd key (Nat.pow_dvd_pow 2 (depth_le_iff.mpr fits))]

theorem Suffix.trans {first second third : Nat} (lower : Suffix first second)
    (upper : Suffix second third) : Suffix first third := by
  have fits : first < 2 ^ depth second := lower.le.trans_lt (depth_le_iff.mp le_rfl)
  rw [← suffix_mod fits, upper]
  exact lower

/-- Two suffixes of one key are comparable: the smaller is a suffix of the larger. -/
theorem Suffix.of_le {first second key : Nat} (one : Suffix first key) (two : Suffix second key)
    (order : first ≤ second) : Suffix first second := by
  have fits : first < 2 ^ depth second := order.trans_lt (depth_le_iff.mp le_rfl)
  rw [← two, suffix_mod fits]
  exact one

theorem suffix_parent_iff {node other : Nat} (positive : node ≠ 0) :
    Suffix other node ↔ other = node ∨ Suffix other (parent node) := by
  rw [parent_eq_mod positive]
  constructor
  · intro suffix
    rcases suffix.le.lt_or_eq with less | same
    · right
      by_cases fits : other < 2 ^ node.log2
      · exact (suffix_mod fits).mpr suffix
      · have deep : depth node ≤ depth other := by
          rw [depth_eq_log2 positive]
          exact Nat.succ_le_of_lt (Nat.lt_size.mpr (by omega))
        have whole : node < 2 ^ depth other := depth_le_iff.mp deep
        rw [Suffix, Nat.mod_eq_of_lt whole] at suffix
        omega
    · exact Or.inl same
  · rintro (rfl | suffix)
    · exact suffix_self _
    · have fits : other < 2 ^ node.log2 := suffix.le.trans_lt (Nat.mod_lt _ (Nat.two_pow_pos _))
      exact (suffix_mod fits).mp suffix

theorem parent_suffix (node : Nat) : Suffix (parent node) node := by
  by_cases zero : node = 0
  · subst zero; exact suffix_zero 0
  · exact (suffix_parent_iff zero).mpr (Or.inr (suffix_self _))

/-- The suffixes of a key are its remainders modulo the powers of two. -/
theorem suffix_iff_exists_mod {node key : Nat} : Suffix node key ↔ ∃ bits, node = key % 2 ^ bits := by
  constructor
  · exact fun suffix => ⟨depth node, suffix.symm⟩
  · rintro ⟨bits, same⟩
    have fits : node < 2 ^ bits := by
      rw [same]
      exact Nat.mod_lt _ (Nat.two_pow_pos bits)
    rw [← suffix_mod fits, ← same]
    exact suffix_self node

/-- The ancestors of a node are its suffixes. -/
theorem Suffix.exists_iterate {low high : Nat} (suffix : Suffix low high) : ∃ steps, parent^[steps] high = low := by
  induction high using Nat.strongRecOn with
  | ind high ih =>
    by_cases zero : high = 0
    · subst zero
      exact ⟨0, (Nat.le_zero.mp suffix.le).symm⟩
    · rcases (suffix_parent_iff zero).mp suffix with rfl | above
      · exact ⟨0, rfl⟩
      · obtain ⟨steps, reached⟩ := ih (parent high) (parent_lt zero) above
        exact ⟨steps + 1, reached⟩

/-- Every member's ancestors are members. -/
def ParentClosed (nodes : Finset Nat) : Prop := ∀ node ∈ nodes, node ≠ 0 → parent node ∈ nodes

/-- Between a proper suffix and a member of a parent-closed set lies a member
hanging directly below the suffix. -/
theorem ParentClosed.child_towards {nodes : Finset Nat} (closed : ParentClosed nodes) {low high : Nat}
    (member : high ∈ nodes) (suffix : Suffix low high) (proper : low < high) :
    ∃ child ∈ nodes, parent child = low ∧ Suffix child high ∧ low < child := by
  induction high using Nat.strongRecOn with
  | ind high ih =>
    have positive : high ≠ 0 := by omega
    rcases (suffix_parent_iff positive).mp suffix with same | above
    · omega
    · rcases above.le.lt_or_eq with less | same
      · obtain ⟨child, inside, below, towards, order⟩ :=
          ih (parent high) (parent_lt positive) (closed high member positive) above less
        exact ⟨child, inside, below, towards.trans (parent_suffix high), order⟩
      · exact ⟨high, member, same.symm, suffix_self high, proper⟩

/-- `node` is the deepest member of `nodes` on the path of `key`. -/
structure Deepest (nodes : Finset Nat) (key node : Nat) : Prop where
  mem : node ∈ nodes
  suffix : Suffix node key
  maximal : ∀ other ∈ nodes, Suffix other key → other ≤ node

theorem Deepest.unique {nodes : Finset Nat} {key first second : Nat}
    (one : Deepest nodes key first) (two : Deepest nodes key second) : first = second :=
  Nat.le_antisymm (two.maximal first one.mem one.suffix) (one.maximal second two.mem two.suffix)

theorem exists_deepest {nodes : Finset Nat} (root : 0 ∈ nodes) (key : Nat) :
    ∃ node, Deepest nodes key node := by
  let path := nodes.filter (Suffix · key)
  have nonempty : path.Nonempty := ⟨0, Finset.mem_filter.mpr ⟨root, suffix_zero key⟩⟩
  obtain ⟨inside, suffix⟩ := Finset.mem_filter.mp (path.max'_mem nonempty)
  exact ⟨path.max' nonempty, inside, suffix, fun other member below =>
    path.le_max' other (Finset.mem_filter.mpr ⟨member, below⟩)⟩

theorem deepest_mod {nodes : Finset Nat} {key width node : Nat}
    (fits : ∀ other ∈ nodes, other < 2 ^ width) :
    Deepest nodes (key % 2 ^ width) node ↔ Deepest nodes key node := by
  constructor
  · rintro ⟨mem, suffix, maximal⟩
    exact ⟨mem, (suffix_mod (fits node mem)).mp suffix, fun other member below =>
      maximal other member ((suffix_mod (fits other member)).mpr below)⟩
  · rintro ⟨mem, suffix, maximal⟩
    exact ⟨mem, (suffix_mod (fits node mem)).mpr suffix, fun other member below =>
      maximal other member ((suffix_mod (fits other member)).mp below)⟩

theorem deepest_parent {nodes : Finset Nat} {start node : Nat} (missing : start ∉ nodes)
    (positive : start ≠ 0) : Deepest nodes (parent start) node ↔ Deepest nodes start node := by
  have path : ∀ other ∈ nodes, Suffix other start ↔ Suffix other (parent start) := by
    intro other member
    rw [suffix_parent_iff positive]
    constructor
    · rintro (rfl | above)
      · exact absurd member missing
      · exact above
    · exact Or.inr
  constructor
  · rintro ⟨mem, suffix, maximal⟩
    exact ⟨mem, (path node mem).mpr suffix, fun other member below =>
      maximal other member ((path other member).mp below)⟩
  · rintro ⟨mem, suffix, maximal⟩
    exact ⟨mem, (path node mem).mp suffix, fun other member below =>
      maximal other member ((path other member).mpr below)⟩

theorem deepest_self {nodes : Finset Nat} {node : Nat} (member : node ∈ nodes) :
    Deepest nodes node node :=
  ⟨member, suffix_self node, fun _ _ suffix => suffix.le⟩

/-- Two sets together select the deeper one of their selections. -/
theorem Deepest.union {first second : Finset Nat} {key one two : Nat} (left : Deepest first key one)
    (right : Deepest second key two) : Deepest (first ∪ second) key (max one two) := by
  refine ⟨?_, ?_, ?_⟩
  · rcases le_total one two with below | below
    · rw [max_eq_right below]
      exact Finset.mem_union_right _ right.mem
    · rw [max_eq_left below]
      exact Finset.mem_union_left _ left.mem
  · rcases max_choice one two with chosen | chosen <;> rw [chosen]
    · exact left.suffix
    · exact right.suffix
  · intro other member suffix
    rcases Finset.mem_union.mp member with inside | inside
    · exact le_max_of_le_left (left.maximal other inside suffix)
    · exact le_max_of_le_right (right.maximal other inside suffix)

/-- More nodes never select a shallower one. -/
theorem Deepest.mono {small large : Finset Nat} (subset : small ⊆ large) {key low high : Nat}
    (one : Deepest small key low) (two : Deepest large key high) : low ≤ high :=
  two.maximal low (subset one.mem) one.suffix

/-- A member set that knows every member child of its own selection agrees with
the parent-closed set it is part of. -/
theorem Deepest.agrees {view all : Finset Nat} (subset : view ⊆ all) (closed : ParentClosed all)
    {key node : Nat} (deepest : Deepest view key node)
    (children : ∀ child ∈ all, parent child = node → child ≠ 0 → child ∈ view) :
    Deepest all key node := by
  refine ⟨subset deepest.mem, deepest.suffix, ?_⟩
  intro other member suffix
  by_contra deeper
  have order : node < other := Nat.lt_of_not_le deeper
  obtain ⟨child, inside, below, towards, above⟩ :=
    closed.child_towards member (deepest.suffix.of_le suffix order.le) order
  have known := children child inside below (by omega)
  have bound := deepest.maximal child known (towards.trans suffix)
  omega

/-- Adding a child of `node` redirects exactly the keys that selected `node` and
end in the child. -/
theorem deepest_insert {nodes : Finset Nat} {key node radix selected : Nat} (present : node ∈ nodes)
    (small : node < 2 ^ radix) (before : Deepest nodes key selected) :
    Deepest (insert (node + 2 ^ radix) nodes) key
      (if selected = node ∧ Suffix (node + 2 ^ radix) key then node + 2 ^ radix else selected) := by
  have positive : node + 2 ^ radix ≠ 0 := by have := Nat.two_pow_pos radix; omega
  have up : parent (node + 2 ^ radix) = node := parent_add small
  split
  · rename_i moved
    obtain ⟨rfl, towards⟩ := moved
    refine ⟨Finset.mem_insert_self _ _, towards, ?_⟩
    intro other member suffix
    rcases Finset.mem_insert.mp member with rfl | member
    · exact le_rfl
    · exact (before.maximal other member suffix).trans (Nat.le_add_right _ _)
  · rename_i stays
    refine ⟨Finset.mem_insert_of_mem before.mem, before.suffix, ?_⟩
    intro other member suffix
    rcases Finset.mem_insert.mp member with rfl | member
    · -- The new node lies on the path, so the selection is comparable with it.
      by_contra deeper
      have below : Suffix selected (node + 2 ^ radix) :=
        before.suffix.of_le suffix (Nat.le_of_not_le deeper)
      rw [suffix_parent_iff positive, up] at below
      have above : Suffix node key := (up ▸ parent_suffix (node + 2 ^ radix)).trans suffix
      have least := before.maximal node present above
      rcases below with same | below
      · omega
      · exact stays ⟨Nat.le_antisymm below.le least, suffix⟩
    · exact before.maximal other member suffix

theorem exists_radix {child : Nat} (positive : child ≠ 0) :
    ∃ radix, depth (parent child) ≤ radix ∧ child = parent child + 2 ^ radix := by
  refine ⟨child.log2, ?_, ?_⟩
  · rw [depth_le_iff, parent_eq_mod positive]
    exact Nat.mod_lt _ (Nat.two_pow_pos _)
  · have power := Nat.log2_self_le positive
    simp only [parent, if_neg positive]
    omega

/-- A tree that has grown by splits: ancestors are there, and the children of a node came in order. -/
structure Grown (nodes : Finset Nat) : Prop where
  closed : ParentClosed nodes
  ordered : ∀ {node low high : Nat}, depth node ≤ low → low ≤ high → node + 2 ^ high ∈ nodes → node + 2 ^ low ∈ nodes

theorem grown_root : Grown {0} where
  closed node member positive := absurd (Finset.mem_singleton.mp member) positive
  ordered {node low high} _ _ member := by
    have power := Nat.two_pow_pos high
    have zero := Finset.mem_singleton.mp member
    omega

section
variable {nodes : Finset Nat} (grown : Grown nodes) {node radix : Nat} (present : node ∈ nodes)
variable (low : depth node ≤ radix)
variable (taken : ∀ earlier, depth node ≤ earlier → earlier < radix → node + 2 ^ earlier ∈ nodes)
include grown present low taken

theorem Grown.insert : Grown (insert (node + 2 ^ radix) nodes) where
  closed other member positive := by
    rcases Finset.mem_insert.mp member with rfl | member
    · rw [parent_add (depth_le_iff.mp low)]
      exact Finset.mem_insert_of_mem present
    · exact Finset.mem_insert_of_mem (grown.closed other member positive)
  ordered {other first second} above order member := by
    rcases Finset.mem_insert.mp member with same | member
    · -- The new child has one parent and one radix.
      have parents := congrArg parent same
      rw [parent_add (depth_le_iff.mp (above.trans order)), parent_add (depth_le_iff.mp low)] at parents
      subst parents
      obtain rfl : second = radix := Nat.pow_right_injective le_rfl (Nat.add_left_cancel same)
      rcases order.eq_or_lt with rfl | less
      · exact Finset.mem_insert_self _ _
      · exact Finset.mem_insert_of_mem (taken first above less)
    · exact Finset.mem_insert_of_mem (grown.ordered above order member)

variable (free : node + 2 ^ radix ∉ nodes)
include free

theorem Grown.child_iff {child : Nat} : (child ∈ nodes ∧ child ≠ 0 ∧ parent child = node) ↔
    ∃ bits, depth node ≤ bits ∧ bits < radix ∧ child = node + 2 ^ bits := by
  constructor
  · rintro ⟨member, positive, rfl⟩
    obtain ⟨bits, above, same⟩ := exists_radix positive
    refine ⟨bits, above, ?_, same⟩
    by_contra late
    rw [same] at member
    exact free (grown.ordered low (Nat.le_of_not_lt late) member)
  · rintro ⟨bits, above, below, rfl⟩
    have power := Nat.two_pow_pos bits
    exact ⟨taken bits above below, by omega, parent_add (depth_le_iff.mp above)⟩

/-- A node is selected by the keys that end in it, written with as many digits as its next child has to add. -/
theorem Grown.deepest_iff {key : Nat} : Deepest nodes key node ↔ key % 2 ^ radix = node := by
  constructor
  · intro deepest
    -- Digit by digit: a one would lead to a child that is there.
    have digits : ∀ bits, depth node ≤ bits → bits ≤ radix → key % 2 ^ bits = node := by
      intro bits above
      induction bits, above using Nat.le_induction with
      | base => exact fun _ => deepest.suffix
      | succ bits above ih =>
        intro below
        have before := ih (by omega)
        have split : key % 2 ^ (bits + 1) = node + 2 ^ bits * (key / 2 ^ bits % 2) := by
          rw [pow_succ, Nat.mod_mul, before]
        rcases Nat.mod_two_eq_zero_or_one (key / 2 ^ bits) with zero | one
        · rw [split, zero, Nat.mul_zero, Nat.add_zero]
        · rw [one, Nat.mul_one] at split
          have child := taken bits above (by omega)
          have larger := deepest.maximal _ child (suffix_iff_exists_mod.mpr ⟨bits + 1, split.symm⟩)
          have power := Nat.two_pow_pos bits
          omega
    exact digits radix low le_rfl
  · intro ends
    refine ⟨present, suffix_iff_exists_mod.mpr ⟨radix, ends.symm⟩, ?_⟩
    intro other member suffix
    by_contra deeper
    have order : node < other := Nat.lt_of_not_le deeper
    have above : Suffix node other := Suffix.of_le (suffix_iff_exists_mod.mpr ⟨radix, ends.symm⟩) suffix order.le
    obtain ⟨child, inside, below, towards, larger⟩ := grown.closed.child_towards member above order
    obtain ⟨bits, shallow, less, rfl⟩ :=
      (grown.child_iff present low taken free).mp ⟨inside, Nat.ne_zero_of_lt larger, below⟩
    -- The key ends in the child, so the digit of the child is a one.
    have fits : node + 2 ^ bits < 2 ^ radix := by
      have small : node < 2 ^ bits := depth_le_iff.mp shallow
      have power : 2 ^ (bits + 1) ≤ 2 ^ radix := Nat.pow_le_pow_right (by decide) less
      rw [pow_succ] at power
      omega
    have reduced := (suffix_mod fits).mpr (towards.trans suffix)
    rw [ends] at reduced
    have bound := reduced.le
    have power := Nat.two_pow_pos bits
    omega

end

end Foundation.SuffixTree
