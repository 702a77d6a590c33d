import SkyeFS.Common.Uthash
import Mathlib.Algebra.Group.Nat.Defs
import Mathlib.Data.List.Perm.Basic
import Mathlib.Data.List.Perm.Lattice

/-! What the hash table of common/uthash.h holds.

A list of elements stands for the table: it is the list that the elements form in the
order of insertion, and each bucket chains those of them whose hash leads to it. Adding
appends to the list and deleting erases from it, whether or not the buckets are doubled on
the way, as long as no counter wraps; no null pointer is followed, nothing is divided by
zero and no bucket is accessed that is not there. Finding returns an element of the list
with the key, if there is one.
-/

set_option autoImplicit false

namespace SkyeFS.Uthash

open Foundation

theorem unsigned_eq {value : Nat} (fits : value < wordSize) : unsigned value = value := Nat.mod_eq_of_lt fits

theorem decr_eq {value : Nat} (positive : 0 < value) (fits : value ≤ wordSize) : decr value = value - 1 := by
  unfold decr unsigned
  unfold wordSize at *
  omega

theorem hashToBkt_lt (hashv : Nat) {numBkts : Nat} (positive : 0 < numBkts) (fits : numBkts < wordSize) :
    hashToBkt hashv numBkts < numBkts := by
  have bounded : hashToBkt hashv numBkts ≤ decr numBkts := Nat.and_le_right
  rw [decr_eq positive (Nat.le_of_lt fits)] at bounded
  omega

variable {Addr Key : Type} [DecidableEq Addr] [DecidableEq Key]

/-- The bucket counts and begins this chain. -/
structure UtHashBucket.Chains (links : Links Addr) (bucket : UtHashBucket Addr) (cells : List Addr) : Prop where
  segment : links.Segment none cells none
  head : bucket.hhHead = cells.head?
  count : bucket.count = cells.length

def inBkt (hashv : Addr → Nat) (numBkts bkt : Nat) (items : List Addr) : List Addr :=
  items.filter fun item => hashToBkt (hashv item) numBkts = bkt

/-- Every bucket chains its elements, in some order. -/
def Chained (links : Links Addr) (hashv : Addr → Nat) (numBkts : Nat) (buckets : Nat → UtHashBucket Addr)
    (items : List Addr) : Prop :=
  ∀ bkt < numBkts, ∃ cells, (buckets bkt).Chains links cells ∧ cells.Perm (inBkt hashv numBkts bkt items)

/-- The table has the right size and chains these elements, and no counter has wrapped. -/
structure UtHashTable.Chains (hashv : Addr → Nat) (chain : Links Addr) (tbl : UtHashTable Addr) (items : List Addr) :
    Prop where
  size : tbl.numBuckets = 2 ^ tbl.log2NumBuckets
  fits : tbl.numBuckets < wordSize
  counted : tbl.numItems = items.length
  few : items.length < wordSize
  chained : Chained chain hashv tbl.numBuckets tbl.buckets items

/-- The elements are linked in this order, and the table chains them. -/
structure Root.Holds (h : Hash Addr Key) (root : Root Addr) (items : List Addr) : Prop where
  head : items.head? = some root.head
  tail : items.getLast? = some root.tbl.tail
  app : h.app.Segment none items none
  table : root.tbl.Chains h.hashv h.chain items

/-- The table holds these elements, in this order of insertion. -/
structure Hash.Holds (hash : Key → Nat) (h : Hash Addr Key) (items : List Addr) : Prop where
  distinct : items.Nodup
  hashed : ∀ item ∈ items, h.hashv item = hash (h.key item)
  root : match h.root with
    | none => items = []
    | some root => root.Holds h items

omit [DecidableEq Addr] in
theorem mem_inBkt {hashv : Addr → Nat} {numBkts bkt : Nat} {items : List Addr} {item : Addr} :
    item ∈ inBkt hashv numBkts bkt items ↔ item ∈ items ∧ hashToBkt (hashv item) numBkts = bkt := by
  simp [inBkt]

omit [DecidableEq Addr] in
theorem UtHashBucket.Chains.frame {links other : Links Addr} {bucket : UtHashBucket Addr} {cells : List Addr}
    (chains : bucket.Chains links cells) (same : ∀ cell ∈ cells, links.Same other cell) : bucket.Chains other cells :=
  ⟨chains.segment.frame same, chains.head, chains.count⟩

theorem UtHashBucket.Chains.push {links : Links Addr} {bucket : UtHashBucket Addr} {cells : List Addr} {cell : Addr}
    (chains : bucket.Chains links cells) (distinct : (cell :: cells).Nodup) (expandMult : Nat) :
    UtHashBucket.Chains (links.push bucket.hhHead cell) ⟨some cell, bucket.count + 1, expandMult⟩ (cell :: cells) where
  segment := by
    rw [chains.head]
    exact chains.segment.push distinct
  head := rfl
  count := congrArg (· + 1) chains.count

theorem UtHashBucket.Chains.aside {links : Links Addr} {bucket other : UtHashBucket Addr} {first cells : List Addr}
    {cell : Addr} (pushed : bucket.Chains links first) (chains : other.Chains links cells)
    (apart : ∀ item ∈ cells, item ≠ cell ∧ item ∉ first) : other.Chains (links.push bucket.hhHead cell) cells := by
  apply chains.frame
  intro item old
  apply Links.same_push (apart item old).1
  rw [pushed.head]
  exact fun head => (apart item old).2 (List.mem_of_head? head)

/-! ### Doubling the buckets -/

section
variable {hashv : Addr → Nat} {numBuckets ideal : Nat} {original : Links Addr} {done : List Addr}
  {state : Redistribution Addr}

/-- These elements have been moved, in this order, and no other one was touched. -/
structure Redistribution.Moved (hashv : Addr → Nat) (numBuckets : Nat) (original : Links Addr) (done : List Addr)
    (state : Redistribution Addr) : Prop where
  distinct : done.Nodup
  chains : ∀ bkt, (state.newBuckets bkt).Chains state.chain (inBkt hashv (2 * numBuckets) bkt done).reverse
  same : ∀ item ∉ done, original.Same state.chain item

omit [DecidableEq Addr] in
theorem inBkt_concat (numBkts bkt : Nat) (item : Addr) :
    (inBkt hashv numBkts bkt (done ++ [item])).reverse =
      if hashToBkt (hashv item) numBkts = bkt then item :: (inBkt hashv numBkts bkt done).reverse
      else (inBkt hashv numBkts bkt done).reverse := by
  unfold inBkt
  rw [List.filter_append, List.reverse_append, List.filter_singleton]
  by_cases here : hashToBkt (hashv item) numBkts = bkt
  · simp [here]
  · simp [here]

/-- Where an element goes, whatever becomes of the counters. -/
theorem moveItem_eq (hashv : Addr → Nat) (some_ : 0 < numBuckets) (fits : 2 * numBuckets < wordSize)
    (positive : 0 < ideal) (state : Redistribution Addr) (thh : Addr)
    (few : (state.newBuckets (hashToBkt (hashv thh) (2 * numBuckets))).count + 1 < wordSize) :
    ∃ expandMult nonidealItems, moveItem hashv numBuckets ideal state thh = some
      ⟨state.chain.push (state.newBuckets (hashToBkt (hashv thh) (2 * numBuckets))).hhHead thh,
        Function.update state.newBuckets (hashToBkt (hashv thh) (2 * numBuckets))
          ⟨some thh, (state.newBuckets (hashToBkt (hashv thh) (2 * numBuckets))).count + 1, expandMult⟩,
        nonidealItems⟩ := by
  have inside := hashToBkt_lt (hashv thh) (by omega : 0 < 2 * numBuckets) fits
  simp only [moveItem, unsigned_eq fits, unsigned_eq few, if_neg (Nat.not_le.mpr inside)]
  by_cases crowded : ideal < (state.newBuckets (hashToBkt (hashv thh) (2 * numBuckets))).count + 1
  · exact ⟨_, _, (if_pos crowded).trans (if_neg (Nat.ne_of_gt positive))⟩
  · exact ⟨_, _, if_neg crowded⟩

theorem Redistribution.Moved.item (moved : state.Moved hashv numBuckets original done) (some_ : 0 < numBuckets)
    (fits : 2 * numBuckets < wordSize) (positive : 0 < ideal) {thh : Addr} (fresh : thh ∉ done)
    (few : done.length + 1 < wordSize) :
    ∃ after, moveItem hashv numBuckets ideal state thh = some after ∧
      after.Moved hashv numBuckets original (done ++ [thh]) := by
  have count : (state.newBuckets (hashToBkt (hashv thh) (2 * numBuckets))).count ≤ done.length := by
    rw [(moved.chains _).count, List.length_reverse]
    exact List.length_filter_le _ _
  obtain ⟨expandMult, nonidealItems, stepped⟩ := moveItem_eq hashv some_ fits positive state thh (by omega)
  generalize placed : hashToBkt (hashv thh) (2 * numBuckets) = bkt at stepped
  have first := moved.chains bkt
  refine ⟨_, stepped, ?_, ?_, ?_⟩
  · rw [← List.concat_eq_append]
    exact moved.distinct.concat fresh
  · intro other
    dsimp only
    rw [inBkt_concat, placed]
    by_cases here : bkt = other
    · subst here
      rw [if_pos rfl, Function.update_self]
      apply first.push
      refine List.nodup_cons.mpr ⟨?_, List.nodup_reverse.mpr (moved.distinct.filter _)⟩
      intro old
      exact fresh (mem_inBkt.mp (List.mem_reverse.mp old)).1
    · rw [if_neg here, Function.update_of_ne (Ne.symm here)]
      apply first.aside (moved.chains other)
      intro item old
      obtain ⟨among, there⟩ := mem_inBkt.mp (List.mem_reverse.mp old)
      refine ⟨fun equal => fresh (equal ▸ among), fun both => here ?_⟩
      exact (mem_inBkt.mp (List.mem_reverse.mp both)).2.symm.trans there
  · intro item outside
    rw [List.mem_append, List.mem_singleton, not_or] at outside
    apply (moved.same item outside.1).trans
    apply Links.same_push outside.2
    rw [first.head]
    exact fun head => outside.1 (mem_inBkt.mp (List.mem_reverse.mp (List.mem_of_head? head))).1

theorem Redistribution.Moved.chain (moved : state.Moved hashv numBuckets original done) (some_ : 0 < numBuckets)
    (fits : 2 * numBuckets < wordSize) (positive : 0 < ideal) {before : Option Addr} {cells : List Addr}
    (segment : original.Segment before cells none) (distinct : (done ++ cells).Nodup)
    (few : (done ++ cells).length < wordSize) {steps : Nat} (enough : cells.length ≤ steps) :
    ∃ after, moveChain hashv numBuckets ideal steps cells.head? state = some after ∧
      after.Moved hashv numBuckets original (done ++ cells) := by
  induction cells generalizing before done state steps with
  | nil =>
    rw [List.append_nil]
    cases steps with
    | zero => exact ⟨state, rfl, moved⟩
    | succ steps => exact ⟨state, rfl, moved⟩
  | cons thh rest ih =>
    obtain ⟨-, forth, more⟩ := segment
    have split : done ++ thh :: rest = done ++ [thh] ++ rest := by
      rw [List.append_assoc]
      rfl
    have fresh : thh ∉ done := by
      intro old
      exact (List.nodup_append.mp distinct).2.2 thh old thh List.mem_cons_self rfl
    cases steps with
    | zero => exact absurd enough (Nat.not_succ_le_zero _)
    | succ steps =>
      have room : done.length + 1 < wordSize := by
        rw [List.length_append, List.length_cons] at few
        omega
      obtain ⟨next, stepped, once⟩ := moved.item some_ fits positive fresh room
      rw [split] at distinct few ⊢
      obtain ⟨after, ended, whole⟩ := ih once more distinct few (Nat.le_of_succ_le_succ enough)
      refine ⟨after, ?_, whole⟩
      rw [Option.or_none] at forth
      rw [List.head?_cons, moveChain, (moved.same thh fresh).1, forth, stepped]
      exact ended

theorem move_buckets {items : List Addr} (distinct : items.Nodup) {buckets : Nat → UtHashBucket Addr}
    (chained : Chained original hashv numBuckets buckets items) (some_ : 0 < numBuckets)
    (fits : 2 * numBuckets < wordSize) (few : items.length < wordSize) (positive : 0 < ideal) {steps : Nat}
    (enough : items.length ≤ steps) (bound : Nat) (bounded : bound ≤ numBuckets) :
    ∃ done after, (List.range bound).foldlM
        (fun state i => moveChain hashv numBuckets ideal steps (buckets i).hhHead state) ⟨original, fun _ => .zero, 0⟩ =
          some after ∧
      after.Moved hashv numBuckets original done ∧
      ∀ item, item ∈ done ↔ item ∈ items ∧ hashToBkt (hashv item) numBuckets < bound := by
  induction bound with
  | zero =>
    refine ⟨[], _, rfl, ⟨List.nodup_nil, ?_, ?_⟩, ?_⟩
    · exact fun bkt => ⟨trivial, rfl, rfl⟩
    · exact fun item _ => ⟨rfl, rfl⟩
    · simp
  | succ bound ih =>
    obtain ⟨done, state, folded, moved, among⟩ := ih (by omega)
    obtain ⟨cells, chains, perm⟩ := chained bound (by omega)
    have member : ∀ item, item ∈ cells ↔ item ∈ items ∧ hashToBkt (hashv item) numBuckets = bound := by
      intro item
      rw [perm.mem_iff, mem_inBkt]
    have disjoint : (done ++ cells).Nodup := by
      refine List.nodup_append.mpr ⟨moved.distinct, perm.nodup_iff.mpr (distinct.filter _), ?_⟩
      rintro item old _ new rfl
      have below := ((among item).mp old).2
      have here := ((member item).mp new).2
      omega
    have short : cells.length ≤ steps := by
      rw [perm.length_eq]
      exact Nat.le_trans (List.length_filter_le _ _) enough
    have subset : done ++ cells ⊆ items := by
      intro item member_
      rcases List.mem_append.mp member_ with old | new
      · exact ((among item).mp old).1
      · exact ((member item).mp new).1
    have room : (done ++ cells).length < wordSize :=
      Nat.lt_of_le_of_lt (List.subperm_of_subset disjoint subset).length_le few
    obtain ⟨after, ended, whole⟩ := moved.chain some_ fits positive chains.segment disjoint room short
    refine ⟨done ++ cells, after, ?_, whole, ?_⟩
    · rw [List.range_succ, List.foldlM_append, folded]
      simp only [Option.bind_eq_bind, Option.bind_some, List.foldlM_cons, List.foldlM_nil, chains.head, ended]
      rfl
    · intro item
      rw [List.mem_append, among, member, Nat.lt_succ_iff_lt_or_eq, ← and_or_left]

end

section
variable {hashv : Addr → Nat} {tbl : UtHashTable Addr} {chain : Links Addr} {items : List Addr}

omit [DecidableEq Addr] in
theorem doubledIdeal_pos (size : tbl.numBuckets = 2 ^ tbl.log2NumBuckets) (fits : 2 * tbl.numBuckets < wordSize)
    (some_ : 0 < tbl.numItems) : 0 < tbl.doubledIdeal := by
  -- The rounded quotient is not zero when there is an element.
  have positive : 0 < 2 * tbl.numBuckets := by
    rw [size]
    exact Nat.mul_pos (by decide) (Nat.two_pow_pos _)
  have twice : 2 * tbl.numBuckets = 2 ^ (tbl.log2NumBuckets + 1) := by rw [size, Nat.pow_succ, Nat.mul_comm]
  unfold UtHashTable.doubledIdeal
  rw [unsigned_eq fits, decr_eq positive (Nat.le_of_lt fits), twice, Nat.and_two_pow_sub_one_eq_mod, Nat.shiftRight_eq_div_pow]
  split
  case isTrue rest => exact Nat.succ_pos _
  case isFalse whole =>
    have divides := Nat.dvd_of_mod_eq_zero (not_not.mp whole)
    exact Nat.div_pos (Nat.le_of_dvd some_ divides) (Nat.two_pow_pos _)

omit [DecidableEq Addr] in
theorem UtHashTable.Chains.positive (chains : tbl.Chains hashv chain items) : 0 < tbl.numBuckets := by
  rw [chains.size]
  exact Nat.two_pow_pos _

omit [DecidableEq Addr] in
theorem UtHashTable.Chains.bkt_lt (chains : tbl.Chains hashv chain items) (value : Nat) :
    hashToBkt value tbl.numBuckets < tbl.numBuckets :=
  hashToBkt_lt value chains.positive chains.fits

theorem UtHashTable.Chains.expand (chains : tbl.Chains hashv chain items) (distinct : items.Nodup) (some_ : items ≠ [])
    (fits : 2 * tbl.numBuckets < wordSize) :
    ∃ after links, hashExpandBuckets hashv tbl chain = some (after, links) ∧ after.Chains hashv links items ∧
      after.tail = tbl.tail ∧ after.numBuckets ≤ 2 * tbl.numBuckets := by
  have ideal := doubledIdeal_pos chains.size fits (chains.counted ▸ List.length_pos_of_ne_nil some_)
  obtain ⟨done, moved, folded, whole, among⟩ := move_buckets distinct chains.chained chains.positive fits chains.few ideal
    (Nat.le_of_eq chains.counted.symm) tbl.numBuckets Nat.le.refl
  -- Every element had a bucket, so that every one was moved.
  have all : done.Perm items := by
    apply (List.perm_ext_iff_of_nodup whole.distinct distinct).mpr
    intro item
    rw [among]
    exact and_iff_left (chains.bkt_lt _)
  unfold hashExpandBuckets
  rw [folded, unsigned_eq fits]
  refine ⟨_, _, rfl, ⟨?_, fits, chains.counted, chains.few, ?_⟩, rfl, Nat.le.refl⟩
  · dsimp only
    rw [Nat.pow_succ, ← chains.size, Nat.mul_comm]
  · intro bkt bounded
    refine ⟨_, whole.chains bkt, ?_⟩
    exact (List.reverse_perm _).trans (all.filter _)

end

/-! ### Adding -/

section
variable {hashv : Addr → Nat} {chain : Links Addr} {numBkts : Nat} {buckets : Nat → UtHashBucket Addr} {items : List Addr}

omit [DecidableEq Addr] in
theorem Chained.congr (chained : Chained chain hashv numBkts buckets items) {other : Addr → Nat}
    (same : ∀ item ∈ items, other item = hashv item) : Chained chain other numBkts buckets items := by
  intro bkt bounded
  obtain ⟨cells, chains, perm⟩ := chained bkt bounded
  have equal : inBkt other numBkts bkt items = inBkt hashv numBkts bkt items := by
    apply List.filter_congr
    intro item old
    rw [same item old]
  exact ⟨cells, chains, equal ▸ perm⟩

theorem Chained.push (chained : Chained chain hashv numBkts buckets items) (distinct : items.Nodup) {add : Addr}
    (fresh : add ∉ items) {bkt : Nat} (placed : hashToBkt (hashv add) numBkts = bkt) (bounded : bkt < numBkts)
    (expandMult : Nat) :
    Chained (chain.push (buckets bkt).hhHead add) hashv numBkts
      (Function.update buckets bkt ⟨some add, (buckets bkt).count + 1, expandMult⟩) (items ++ [add]) := by
  obtain ⟨first, pushed, order⟩ := chained bkt bounded
  have among : ∀ item ∈ first, item ∈ items ∧ hashToBkt (hashv item) numBkts = bkt :=
    fun item old => mem_inBkt.mp (order.mem_iff.mp old)
  intro other bounded
  obtain ⟨cells, chains, perm⟩ := chained other bounded
  have member : ∀ item ∈ cells, item ∈ items ∧ hashToBkt (hashv item) numBkts = other :=
    fun item old => mem_inBkt.mp (perm.mem_iff.mp old)
  by_cases here : bkt = other
  · subst here
    have longer : inBkt hashv numBkts bkt (items ++ [add]) = inBkt hashv numBkts bkt items ++ [add] := by
      simp [inBkt, placed]
    refine ⟨add :: first, ?_, ?_⟩
    · rw [Function.update_self]
      apply pushed.push
      exact List.nodup_cons.mpr ⟨fun old => fresh (among add old).1, order.nodup_iff.mpr (distinct.filter _)⟩
    · rw [longer]
      exact (order.cons add).trans (List.perm_append_singleton _ _).symm
  · have shorter : inBkt hashv numBkts other (items ++ [add]) = inBkt hashv numBkts other items := by
      simp [inBkt, placed, here]
    refine ⟨cells, ?_, shorter ▸ perm⟩
    rw [Function.update_of_ne (Ne.symm here)]
    apply pushed.aside chains
    intro item old
    refine ⟨fun equal => fresh (equal ▸ (member item old).1), fun both => here ?_⟩
    exact (among item both).2.symm.trans (member item old).2

end

section
variable {hashv : Addr → Nat} {tbl : UtHashTable Addr} {chain : Links Addr} {items : List Addr}

/-- The table counts the new element already. -/
theorem hashAddToBkt_chains (size : tbl.numBuckets = 2 ^ tbl.log2NumBuckets) (fits : 2 * tbl.numBuckets < wordSize)
    (few : items.length + 1 < wordSize) (chained : Chained chain hashv tbl.numBuckets tbl.buckets items)
    (counted : tbl.numItems = items.length + 1) (distinct : items.Nodup) {addhh : Addr} (fresh : addhh ∉ items) :
    ∃ after links, hashAddToBkt hashv tbl chain (hashToBkt (hashv addhh) tbl.numBuckets) addhh = some (after, links) ∧
      after.Chains hashv links (items ++ [addhh]) ∧ after.tail = tbl.tail ∧ after.numBuckets ≤ 2 * tbl.numBuckets := by
  have positive : 0 < tbl.numBuckets := by
    rw [size]
    exact Nat.two_pow_pos _
  have small : tbl.numBuckets < wordSize := by omega
  have inside := hashToBkt_lt (hashv addhh) positive small
  have pushed := chained.push distinct fresh rfl inside (tbl.buckets (hashToBkt (hashv addhh) tbl.numBuckets)).expandMult
  have count : (tbl.buckets (hashToBkt (hashv addhh) tbl.numBuckets)).count + 1 < wordSize := by
    obtain ⟨cells, chains, perm⟩ := chained _ inside
    rw [chains.count, perm.length_eq]
    exact Nat.lt_of_le_of_lt (Nat.succ_le_succ (List.length_filter_le _ _)) few
  have longer : tbl.numItems = (items ++ [addhh]).length := by rw [counted, List.length_append, List.length_singleton]
  have nodup : (items ++ [addhh]).Nodup := by
    rw [← List.concat_eq_append]
    exact distinct.concat fresh
  have room : (items ++ [addhh]).length < wordSize := by rwa [List.length_append, List.length_singleton]
  unfold hashAddToBkt
  dsimp only
  rw [unsigned_eq count]
  split
  case isTrue full =>
    have some_ : items ++ [addhh] ≠ [] := List.append_ne_nil_of_right_ne_nil _ (List.cons_ne_nil _ _)
    exact UtHashTable.Chains.expand ⟨size, small, longer, room, pushed⟩ nodup some_ fits
  case isFalse => exact ⟨_, _, rfl, ⟨size, small, longer, room, pushed⟩, rfl, by dsimp only; omega⟩

end

section
variable {hash : Key → Nat} {h : Hash Addr Key} {items : List Addr}

/-- The buckets of the table, or of the one that the first element makes. -/
def Hash.numBuckets (h : Hash Addr Key) : Nat :=
  match h.root with
  | none => hashInitialNumBuckets
  | some root => root.tbl.numBuckets

/-- So many elements more wrap no counter, even if each of them doubles the buckets. -/
def Hash.Room (more : Nat) (h : Hash Addr Key) : Prop :=
  h.numBuckets * 2 ^ more < wordSize ∧ hashCount h + more < wordSize

instance (more : Nat) (h : Hash Addr Key) : Decidable (h.Room more) := inferInstanceAs (Decidable (_ ∧ _))

omit [DecidableEq Addr] [DecidableEq Key] in
theorem Hash.Room.add {more : Nat} (room : h.Room (more + 1)) {after : Hash Addr Key}
    (doubled : after.numBuckets ≤ 2 * h.numBuckets) (counted : hashCount after ≤ hashCount h + 1) : after.Room more := by
  obtain ⟨buckets, few⟩ := room
  refine ⟨?_, by omega⟩
  calc after.numBuckets * 2 ^ more
    _ ≤ 2 * h.numBuckets * 2 ^ more := Nat.mul_le_mul_right _ doubled
    _ = h.numBuckets * 2 ^ (more + 1) := by rw [Nat.pow_succ', ← Nat.mul_assoc, Nat.mul_comm 2]
    _ < wordSize := buckets

omit [DecidableEq Addr] [DecidableEq Key] in
theorem Hash.Room.fewer {more : Nat} (room : h.Room (more + 1)) : h.Room more :=
  room.add (Nat.le_mul_of_pos_left _ Nat.two_pos) (Nat.le_succ _)

omit [DecidableEq Addr] [DecidableEq Key] in
theorem Hash.Room.fits {more : Nat} (room : h.Room (more + 1)) : 2 * h.numBuckets < wordSize := by
  have power : 2 ≤ 2 ^ (more + 1) := Nat.le_self_pow (Nat.succ_ne_zero more) 2
  rw [Nat.mul_comm]
  exact Nat.lt_of_le_of_lt (Nat.mul_le_mul_left _ power) room.1

omit [DecidableEq Key] in
theorem hashAddLinked_holds (holds : h.Holds hash items) {add : Addr} (fresh : add ∉ items) (keyptr : Key) {head : Addr}
    {tbl : UtHashTable Addr} {app : Links Addr} (chains : tbl.Chains h.hashv h.chain items)
    (fits : 2 * tbl.numBuckets < wordSize) (few : items.length + 1 < wordSize)
    (first : (items ++ [add]).head? = some head) (last : tbl.tail = add)
    (linked : app.Segment none (items ++ [add]) none) :
    ∃ after, hashAddLinked hash h add keyptr head tbl app = some after ∧ after.Holds hash (items ++ [add]) ∧
      after.key = Function.update h.key add keyptr ∧ after.numBuckets ≤ 2 * tbl.numBuckets := by
  have apart : ∀ item ∈ items, item ≠ add := fun item old equal => fresh (equal ▸ old)
  have placed : Function.update h.hashv add (hash keyptr) add = hash keyptr := Function.update_self _ _ _
  have chained : Chained h.chain (Function.update h.hashv add (hash keyptr)) tbl.numBuckets tbl.buckets items :=
    chains.chained.congr fun item old => Function.update_of_ne (apart item old) _ _
  have counted : unsigned (tbl.numItems + 1) = items.length + 1 := by rw [chains.counted, unsigned_eq few]
  obtain ⟨after, links, added, whole, tail, doubled⟩ := @hashAddToBkt_chains Addr _ (Function.update h.hashv add (hash keyptr))
    ⟨tbl.buckets, tbl.numBuckets, tbl.log2NumBuckets, unsigned (tbl.numItems + 1), tbl.tail, tbl.idealChainMaxlen,
      tbl.nonidealItems, tbl.ineffExpands, tbl.noexpand⟩ h.chain items chains.size fits few chained counted holds.distinct add
      fresh
  rw [placed] at added
  unfold hashAddLinked
  dsimp only
  rw [added]
  refine ⟨_, rfl, ⟨?_, ?_, ⟨first, ?_, linked, whole⟩⟩, rfl, doubled⟩
  · rw [← List.concat_eq_append]
    exact holds.distinct.concat fresh
  · intro item member
    rcases List.mem_append.mp member with old | new
    · dsimp only
      rw [Function.update_of_ne (apart item old), Function.update_of_ne (apart item old)]
      exact holds.hashed item old
    · cases List.mem_singleton.mp new
      dsimp only
      rw [placed, Function.update_self]
  · rw [List.getLast?_concat, tail, last]

omit [DecidableEq Addr] [DecidableEq Key] in
theorem Hash.Holds.count (holds : h.Holds hash items) : hashCount h = items.length := by
  have held := holds.root
  unfold hashCount
  cases rooted : h.root with
  | none =>
    rw [rooted] at held
    rw [held]
    rfl
  | some root =>
    rw [rooted] at held
    exact held.table.counted

omit [DecidableEq Key] in
theorem Hash.Holds.add (holds : h.Holds hash items) {add : Addr} (fresh : add ∉ items) (keyptr : Key) {more : Nat}
    (room : h.Room (more + 1)) :
    ∃ after, hashAdd hash h add keyptr = some after ∧ after.Holds hash (items ++ [add]) ∧
      after.key = Function.update h.key add keyptr ∧ after.Room more := by
  have held := holds.root
  have fits := room.fits
  have few : items.length + 1 < wordSize := by
    have bounded := room.2
    rw [holds.count] at bounded
    omega
  suffices added : ∃ after, hashAdd hash h add keyptr = some after ∧ after.Holds hash (items ++ [add]) ∧
      after.key = Function.update h.key add keyptr ∧ after.numBuckets ≤ 2 * h.numBuckets by
    obtain ⟨after, added, whole, keys, doubled⟩ := added
    have counted : hashCount after = hashCount h + 1 := by
      rw [whole.count, holds.count, List.length_append, List.length_singleton]
    exact ⟨after, added, whole, keys, room.add doubled (Nat.le_of_eq counted)⟩
  unfold hashAdd
  unfold Hash.numBuckets at fits ⊢
  cases rooted : h.root with
  | none =>
    rw [rooted] at held fits
    subst held
    have empty : (hashMakeTable add).Chains h.hashv h.chain [] :=
      ⟨rfl, Nat.lt_of_le_of_lt (Nat.le_mul_of_pos_left _ Nat.two_pos) fits, rfl, Nat.lt_of_succ_lt few,
        fun bkt bounded => ⟨[], ⟨trivial, rfl, rfl⟩, .nil⟩⟩
    apply hashAddLinked_holds holds fresh keyptr empty fits few rfl rfl
    exact ⟨Function.update_self _ _ _, Function.update_self _ _ _, trivial⟩
  | some root =>
    rw [rooted] at held fits
    refine hashAddLinked_holds holds fresh keyptr ?_ fits few ?_ rfl ?_
    · exact ⟨held.table.size, held.table.fits, held.table.counted, held.table.few, held.table.chained⟩
    · rw [List.head?_append, held.head]
      rfl
    · rw [← held.tail]
      exact held.app.append (List.nodup_cons.mpr ⟨fresh, holds.distinct⟩) (Or.inl rfl)

end

/-! ### Deleting -/

section
variable {hashv : Addr → Nat} {chain : Links Addr} {numBkts : Nat} {buckets : Nat → UtHashBucket Addr} {items : List Addr}

theorem inBkt_erase (distinct : items.Nodup) (numBkts bkt : Nat) (item : Addr) :
    inBkt hashv numBkts bkt (items.erase item) = (inBkt hashv numBkts bkt items).erase item := by
  have filtered : (inBkt hashv numBkts bkt items).Nodup := distinct.filter _
  rw [distinct.erase_eq_filter, filtered.erase_eq_filter, inBkt, inBkt, List.filter_filter, List.filter_filter]
  apply List.filter_congr
  intro other _
  exact Bool.and_comm _ _

theorem UtHashBucket.Chains.unlink {bucket : UtHashBucket Addr} {front back : List Addr} {cell : Addr}
    (chains : bucket.Chains chain (front ++ cell :: back)) (distinct : (front ++ cell :: back).Nodup)
    (few : (front ++ cell :: back).length ≤ wordSize) :
    UtHashBucket.Chains (chain.unlink cell)
      ⟨if bucket.hhHead = some cell then chain.next cell else bucket.hhHead, decr bucket.count, bucket.expandMult⟩
      (front ++ back) where
  segment := chains.segment.unlink distinct
  head := by
    obtain ⟨-, ahead⟩ := chains.segment.neighbours
    dsimp only
    rw [chains.head]
    cases front with
    | nil => exact (if_pos rfl).trans ahead
    | cons first front =>
      apply if_neg
      intro head
      cases Option.some.inj head
      exact (List.nodup_cons.mp distinct).1 (List.mem_append_right _ List.mem_cons_self)
  count := by
    dsimp only
    have positive := List.length_pos_of_mem (List.mem_append_right front (@List.mem_cons_self _ cell back))
    rw [chains.count, decr_eq positive few, List.length_append, List.length_append, List.length_cons]
    rfl

theorem Chained.unlink (chained : Chained chain hashv numBkts buckets items) (distinct : items.Nodup)
    (few : items.length < wordSize) {delptr : Addr} (member : delptr ∈ items) {bkt : Nat}
    (placed : hashToBkt (hashv delptr) numBkts = bkt) (bounded : bkt < numBkts) :
    Chained (chain.unlink delptr) hashv numBkts
      (Function.update buckets bkt ⟨if (buckets bkt).hhHead = some delptr then chain.next delptr else (buckets bkt).hhHead,
        decr (buckets bkt).count, (buckets bkt).expandMult⟩) (items.erase delptr) := by
  obtain ⟨first, chains, order⟩ := chained bkt bounded
  have nodup : first.Nodup := order.nodup_iff.mpr (distinct.filter _)
  have short : first.length ≤ wordSize := by
    rw [order.length_eq]
    exact Nat.le_trans (List.length_filter_le _ _) (Nat.le_of_lt few)
  obtain ⟨front, back, rfl⟩ := List.append_of_mem (order.mem_iff.mpr (mem_inBkt.mpr ⟨member, placed⟩))
  have among : ∀ item ∈ front ++ delptr :: back, hashToBkt (hashv item) numBkts = bkt :=
    fun item old => (mem_inBkt.mp (order.mem_iff.mp old)).2
  intro other inside
  rw [inBkt_erase distinct]
  by_cases here : bkt = other
  · subst here
    refine ⟨front ++ back, ?_, ?_⟩
    · rw [Function.update_self]
      exact chains.unlink nodup short
    · have erased : (front ++ delptr :: back).erase delptr = front ++ back := by
        have behind : delptr ∉ front := fun old =>
          (List.nodup_append.mp nodup).2.2 delptr old delptr List.mem_cons_self rfl
        rw [List.erase_append_right _ behind, List.erase_cons_head]
      rw [← erased]
      exact order.erase delptr
  · obtain ⟨cells, others, perm⟩ := chained other inside
    have elsewhere : ∀ item ∈ cells, hashToBkt (hashv item) numBkts = other :=
      fun item old => (mem_inBkt.mp (perm.mem_iff.mp old)).2
    have absent : delptr ∉ inBkt hashv numBkts other items := by
      intro old
      exact here (placed.symm.trans (mem_inBkt.mp old).2)
    rw [List.erase_of_not_mem absent, Function.update_of_ne (Ne.symm here)]
    refine ⟨cells, others.frame ?_, perm⟩
    intro item old
    -- The neighbours that are written are in the chain of the deleted element.
    obtain ⟨behind, ahead⟩ := chains.segment.neighbours
    apply Links.same_unlink
    · rw [behind]
      intro last
      exact here ((among item (List.mem_append_left _ (List.mem_of_getLast? last))).symm.trans (elsewhere item old))
    · rw [ahead]
      intro head
      exact here ((among item (List.mem_append_right _ (List.mem_cons_of_mem _ (List.mem_of_head? head)))).symm.trans
        (elsewhere item old))

end

section
variable {hash : Key → Nat} {h : Hash Addr Key} {items : List Addr}

theorem tail_erase {front back : List Addr} {delptr tail : Addr} (distinct : (front ++ delptr :: back).Nodup)
    (last : (front ++ delptr :: back).getLast? = some tail) :
    (if delptr = tail then front.getLast? else some tail) = (front ++ back).getLast? := by
  cases back with
  | nil =>
    have equal : delptr = tail := by
      rw [List.getLast?_append] at last
      exact Option.some.inj last
    rw [if_pos equal, List.append_nil]
  | cons next back =>
    have more : (next :: back).getLast? = some tail := by
      rw [List.getLast?_append, List.getLast?_cons_cons, List.getLast?_cons] at last
      rw [List.getLast?_cons]
      exact last
    have other : delptr ≠ tail := by
      rintro rfl
      exact (List.nodup_cons.mp (List.nodup_append.mp distinct).2.1).1 (List.mem_of_getLast? more)
    rw [if_neg other, List.getLast?_append, more]
    rfl

omit [DecidableEq Addr] in
theorem head_erase {front back : List Addr} {delptr head : Addr} (first : (front ++ delptr :: back).head? = some head) :
    (if front.getLast? = none then back.head? else some head) = (front ++ back).head? := by
  cases front with
  | nil => rfl
  | cons other front =>
    rw [List.getLast?_cons, if_neg (Option.some_ne_none _)]
    exact first.symm

omit [DecidableEq Key] in
theorem Hash.Holds.delete (holds : h.Holds hash items) {delptr : Addr} (member : delptr ∈ items) :
    ∃ after, hashDelete h delptr = some after ∧ after.Holds hash (items.erase delptr) ∧ after.key = h.key := by
  have held := holds.root
  have distinct := holds.distinct
  have hashed : ∀ item ∈ items.erase delptr, h.hashv item = hash (h.key item) :=
    fun item old => holds.hashed item (List.mem_of_mem_erase old)
  unfold hashDelete
  cases rooted : h.root with
  | none =>
    rw [rooted] at held
    rw [held] at member
    cases member
  | some root =>
    rw [rooted] at held
    have unlinked := held.table.chained.unlink distinct held.table.few member rfl (held.table.bkt_lt (h.hashv delptr))
    have fewer : decr root.tbl.numItems = (items.erase delptr).length := by
      rw [List.length_erase_of_mem member, held.table.counted]
      exact decr_eq (List.length_pos_of_mem member) (Nat.le_of_lt held.table.few)
    have few : (items.erase delptr).length < wordSize := Nat.lt_of_le_of_lt List.length_erase_le held.table.few
    have nodup : (items.erase delptr).Nodup := distinct.erase delptr
    obtain ⟨front, back, rfl⟩ := List.append_of_mem member
    have erased : (front ++ delptr :: back).erase delptr = front ++ back := by
      have behind : delptr ∉ front := fun old =>
        (List.nodup_append.mp distinct).2.2 delptr old delptr List.mem_cons_self rfl
      rw [List.erase_append_right _ behind, List.erase_cons_head]
    obtain ⟨behind, ahead⟩ := held.app.neighbours
    rw [erased] at unlinked fewer few nodup hashed ⊢
    rw [Option.bind_some, behind, ahead]
    by_cases alone : front.getLast? = none ∧ back.head? = none
    · rw [if_pos alone]
      have empty : front ++ back = [] := by
        rw [List.getLast?_eq_none_iff.mp alone.1, List.head?_eq_none_iff.mp alone.2]
        rfl
      exact ⟨_, rfl, ⟨nodup, hashed, empty⟩, rfl⟩
    · rw [if_neg alone, tail_erase distinct held.tail, head_erase held.head]
      have some_ : front ++ back ≠ [] := by
        intro empty
        obtain ⟨rfl, rfl⟩ := List.append_eq_nil_iff.mp empty
        exact alone ⟨rfl, rfl⟩
      rw [List.getLast?_eq_some_getLast some_, List.head?_eq_some_head some_]
      refine ⟨_, rfl, ⟨nodup, hashed, ?_⟩, rfl⟩
      exact ⟨List.head?_eq_some_head some_, List.getLast?_eq_some_getLast some_, held.app.unlink distinct,
        held.table.size, held.table.fits, fewer, few, unlinked⟩

/-! ### Finding -/

omit [DecidableEq Addr] in
theorem hashFindInBkt_eq {before : Option Addr} {cells : List Addr} (segment : h.chain.Segment before cells none)
    (keyptr : Key) {steps : Nat} (enough : cells.length ≤ steps) :
    hashFindInBkt h keyptr steps cells.head? = cells.find? fun item => h.key item = keyptr := by
  induction cells generalizing before steps with
  | nil => cases steps <;> rfl
  | cons out rest ih =>
    obtain ⟨-, forth, more⟩ := segment
    rw [Option.or_none] at forth
    cases steps with
    | zero => exact absurd enough (Nat.not_succ_le_zero _)
    | succ steps =>
      rw [List.head?_cons, hashFindInBkt, forth, ih more (Nat.le_of_succ_le_succ enough), List.find?_cons]
      by_cases found : h.key out = keyptr
      · simp [found]
      · simp [found]

omit [DecidableEq Addr] in
theorem Hash.Holds.find (holds : h.Holds hash items) (keyptr : Key) :
    match hashFind hash h keyptr with
    | some out => out ∈ items ∧ h.key out = keyptr
    | none => ∀ item ∈ items, h.key item ≠ keyptr := by
  -- The chain that is searched has every element with the key.
  have held := holds.root
  unfold hashFind
  cases rooted : h.root with
  | none =>
    rw [rooted] at held
    subst held
    exact fun item member => absurd member List.not_mem_nil
  | some root =>
    rw [rooted] at held
    obtain ⟨cells, chains, perm⟩ := held.table.chained _ (held.table.bkt_lt (hash keyptr))
    have short : cells.length ≤ root.tbl.numItems := by
      rw [perm.length_eq, held.table.counted]
      exact List.length_filter_le _ _
    dsimp only
    rw [chains.head, hashFindInBkt_eq chains.segment keyptr short]
    cases searched : cells.find? (fun item => h.key item = keyptr) with
    | some out =>
      have among := perm.mem_iff.mp (List.mem_of_find?_eq_some searched)
      have equal := List.find?_some searched
      exact ⟨(mem_inBkt.mp among).1, of_decide_eq_true equal⟩
    | none =>
      intro item member equal
      have placed : hashToBkt (h.hashv item) root.tbl.numBuckets = hashToBkt (hash keyptr) root.tbl.numBuckets := by
        rw [holds.hashed item member, equal]
      have among := perm.mem_iff.mpr (mem_inBkt.mpr ⟨member, placed⟩)
      exact absurd (decide_eq_true equal) (List.find?_eq_none.mp searched item among)

/-! ### The integrity check -/

omit [DecidableEq Key] in
theorem checkList_eq {links : Links Addr} {before : Option Addr} {cells : List Addr}
    (segment : links.Segment before cells none) {steps : Nat} (enough : cells.length ≤ steps) :
    checkList links steps before cells.head? = some cells.length := by
  induction cells generalizing before steps with
  | nil => cases steps <;> rfl
  | cons thh rest ih =>
    obtain ⟨back, forth, more⟩ := segment
    rw [Option.or_none] at forth
    cases steps with
    | zero => exact absurd enough (Nat.not_succ_le_zero _)
    | succ steps =>
      rw [List.head?_cons, checkList, if_pos back, forth, ih more (Nat.le_of_succ_le_succ enough)]
      rfl

omit [DecidableEq Addr] in
theorem length_below_succ (place : Addr → Nat) (items : List Addr) (bound : Nat) :
    (items.filter fun item => place item < bound + 1).length =
      (items.filter fun item => place item < bound).length + (items.filter fun item => place item = bound).length := by
  simp only [← List.countP_eq_length_filter]
  induction items with
  | nil => rfl
  | cons item rest ih =>
    simp only [List.countP_cons, ih, decide_eq_true_eq]
    split_ifs <;> omega

theorem UtHashTable.Chains.check {hashv : Addr → Nat} {chain : Links Addr} {tbl : UtHashTable Addr}
    (chains : tbl.Chains hashv chain items) (bound : Nat) (bounded : bound ≤ tbl.numBuckets) :
    (List.range bound).foldlM (fun total i => checkBkt chain tbl.numItems (tbl.buckets i) total) 0 =
      some (items.filter fun item => hashToBkt (hashv item) tbl.numBuckets < bound).length := by
  induction bound with
  | zero => simp
  | succ bound ih =>
    obtain ⟨cells, begins, perm⟩ := chains.chained bound (by omega)
    have length := perm.length_eq
    have short : cells.length ≤ tbl.numItems := by
      rw [length, chains.counted]
      exact List.length_filter_le _ _
    have checked : ∀ total, checkBkt chain tbl.numItems (tbl.buckets bound) total = some (total + cells.length) := by
      intro total
      rw [checkBkt, begins.head, checkList_eq begins.segment short, Option.bind_some, if_pos begins.count]
    rw [List.range_succ, List.foldlM_append, ih (by omega), length_below_succ]
    simp only [Option.bind_eq_bind, Option.bind_some, List.foldlM_cons, List.foldlM_nil, checked, length]
    rfl

omit [DecidableEq Key] in
/-- `HASH_FSCK` never finds anything wrong. -/
theorem Hash.Holds.fsck (holds : h.Holds hash items) : hashFsck h = true := by
  have held := holds.root
  unfold hashFsck
  cases rooted : h.root with
  | none => rfl
  | some root =>
    rw [rooted] at held
    have all : (items.filter fun item => hashToBkt (h.hashv item) root.tbl.numBuckets < root.tbl.numBuckets) = items := by
      apply List.filter_eq_self.mpr
      intro item member
      exact decide_eq_true (held.table.bkt_lt _)
    have chained := held.table.check root.tbl.numBuckets Nat.le.refl
    have linked := checkList_eq held.app (Nat.le_of_eq held.table.counted.symm)
    rw [all, ← held.table.counted] at chained
    rw [held.head, ← held.table.counted] at linked
    simp only [chained, linked, decide_true, Bool.and_self]

end

end SkyeFS.Uthash
