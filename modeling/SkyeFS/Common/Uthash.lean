import SkyeFS.Foundation.Linked

/-! The hash table of common/uthash.h, with its pointers.

An element carries its own handle: its neighbours in the order of insertion, its
neighbours in the chain of its bucket, its key and the hash of the key. The table is
reached through the first element and is freed with the last one. A bucket that gets long
doubles the number of buckets, unless two doublings in a row did not help. The counters
are `unsigned` and wrap. `none` is a null pointer followed, a division by zero or an access
outside of the buckets.
-/

set_option autoImplicit false

namespace SkyeFS.Uthash

open Foundation

def hashInitialNumBuckets : Nat := 32
def hashInitialNumBucketsLog2 : Nat := 5
def hashBktCapacityThresh : Nat := 10

def wordSize : Nat := 4294967296

/-- The value of an expression as `unsigned`. -/
def unsigned (value : Nat) : Nat := value % wordSize

def decr (value : Nat) : Nat := unsigned (value + (wordSize - 1))

structure UtHashBucket (Addr : Type) where
  hhHead : Option Addr
  count : Nat
  expandMult : Nat

structure UtHashTable (Addr : Type) where
  buckets : Nat → UtHashBucket Addr
  numBuckets : Nat
  log2NumBuckets : Nat
  numItems : Nat
  tail : Addr
  idealChainMaxlen : Nat
  nonidealItems : Nat
  ineffExpands : Nat
  noexpand : Bool

structure Root (Addr : Type) where
  head : Addr
  tbl : UtHashTable Addr

/-- The pointer to the first element and the handles in memory: `prev` and `next`, `hh_prev` and `hh_next`, `key` and
`hashv`. -/
structure Hash (Addr Key : Type) where
  root : Option (Root Addr)
  app : Links Addr
  chain : Links Addr
  key : Addr → Key
  hashv : Addr → Nat

def UtHashBucket.zero {Addr : Type} : UtHashBucket Addr := ⟨none, 0, 0⟩

def hashToBkt (hashv numBkts : Nat) : Nat := hashv &&& decr numBkts

variable {Addr Key : Type} [DecidableEq Addr] [DecidableEq Key]

def hashMakeTable (head : Addr) : UtHashTable Addr where
  buckets _ := .zero
  numBuckets := hashInitialNumBuckets
  log2NumBuckets := hashInitialNumBucketsLog2
  numItems := 0
  tail := head
  idealChainMaxlen := 0
  nonidealItems := 0
  ineffExpands := 0
  noexpand := false

def hashCount (h : Hash Addr Key) : Nat :=
  match h.root with
  | none => 0
  | some root => root.tbl.numItems

/-! ### Finding -/

/-- The loop of `HASH_FIND_IN_BKT`, for at most so many elements. -/
def hashFindInBkt (h : Hash Addr Key) (keyptr : Key) : Nat → Option Addr → Option Addr
  | 0, _ => none
  | _ + 1, none => none
  | steps + 1, some out =>
      if h.key out = keyptr then some out else hashFindInBkt h keyptr steps (h.chain.next out)

def hashFind (hash : Key → Nat) (h : Hash Addr Key) (keyptr : Key) : Option Addr :=
  match h.root with
  | none => none
  | some root =>
      hashFindInBkt h keyptr root.tbl.numItems
        (root.tbl.buckets (hashToBkt (hash keyptr) root.tbl.numBuckets)).hhHead

/-! ### Doubling the buckets -/

/-- The links of the chains, the new buckets and `nonideal_items`. -/
structure Redistribution (Addr : Type) where
  chain : Links Addr
  newBuckets : Nat → UtHashBucket Addr
  nonidealItems : Nat

section
variable (hashv : Addr → Nat) (numBuckets idealChainMaxlen : Nat)

/-- One element goes to the front of its new chain. -/
def moveItem (state : Redistribution Addr) (thh : Addr) : Option (Redistribution Addr) :=
  let newNum := unsigned (2 * numBuckets)
  let bkt := hashToBkt (hashv thh) newNum
  let newbkt := state.newBuckets bkt
  let count := unsigned (newbkt.count + 1)
  let chain := state.chain.push newbkt.hhHead thh
  if newNum ≤ bkt then none
  else if idealChainMaxlen < count then
    if idealChainMaxlen = 0 then none
    else
      some ⟨chain, Function.update state.newBuckets bkt ⟨some thh, count, count / idealChainMaxlen⟩,
        unsigned (state.nonidealItems + 1)⟩
  else some ⟨chain, Function.update state.newBuckets bkt ⟨some thh, count, newbkt.expandMult⟩, state.nonidealItems⟩

/-- The next element is read before this one is moved. -/
def moveChain : Nat → Option Addr → Redistribution Addr → Option (Redistribution Addr)
  | 0, _, state => some state
  | _ + 1, none, state => some state
  | steps + 1, some thh, state =>
      let hhNxt := state.chain.next thh
      (moveItem hashv numBuckets idealChainMaxlen state thh).bind (moveChain steps hhNxt)

end

def UtHashTable.doubledIdeal (tbl : UtHashTable Addr) : Nat :=
  tbl.numItems >>> (tbl.log2NumBuckets + 1) +
    if tbl.numItems &&& decr (unsigned (2 * tbl.numBuckets)) ≠ 0 then 1 else 0

def hashExpandBuckets (hashv : Addr → Nat) (tbl : UtHashTable Addr) (chain : Links Addr) :
    Option (UtHashTable Addr × Links Addr) := do
  let moved ← (List.range tbl.numBuckets).foldlM
    (fun state i => moveChain hashv tbl.numBuckets tbl.doubledIdeal tbl.numItems (tbl.buckets i).hhHead state)
    ⟨chain, fun _ => .zero, 0⟩
  let ineffExpands := if tbl.numItems >>> 1 < moved.nonidealItems then tbl.ineffExpands + 1 else 0
  return ({
    buckets := moved.newBuckets
    numBuckets := unsigned (2 * tbl.numBuckets)
    log2NumBuckets := tbl.log2NumBuckets + 1
    numItems := tbl.numItems
    tail := tbl.tail
    idealChainMaxlen := tbl.doubledIdeal
    nonidealItems := moved.nonidealItems
    ineffExpands
    noexpand := tbl.noexpand || decide (1 < ineffExpands) }, moved.chain)

/-! ### Adding and deleting -/

def hashAddToBkt (hashv : Addr → Nat) (tbl : UtHashTable Addr) (chain : Links Addr) (bkt : Nat) (addhh : Addr) :
    Option (UtHashTable Addr × Links Addr) :=
  let head := tbl.buckets bkt
  let count := unsigned (head.count + 1)
  let pushed := chain.push head.hhHead addhh
  let added : UtHashTable Addr :=
    { tbl with buckets := Function.update tbl.buckets bkt ⟨some addhh, count, head.expandMult⟩ }
  if unsigned ((head.expandMult + 1) * hashBktCapacityThresh) ≤ count ∧ tbl.noexpand = false then
    hashExpandBuckets hashv added pushed
  else some (added, pushed)

/-- `HASH_ADD` from `num_items++` on, when the element has been linked behind the others. -/
def hashAddLinked (hash : Key → Nat) (h : Hash Addr Key) (add : Addr) (keyptr : Key) (head : Addr)
    (tbl : UtHashTable Addr) (app : Links Addr) : Option (Hash Addr Key) := do
  let hashv := Function.update h.hashv add (hash keyptr)
  let bkt := hashToBkt (hash keyptr) tbl.numBuckets
  let (tbl, chain) ← hashAddToBkt hashv { tbl with numItems := unsigned (tbl.numItems + 1) } h.chain bkt add
  return { root := some ⟨head, tbl⟩, app, chain, key := Function.update h.key add keyptr, hashv }

/-- `HASH_ADD`; nothing looks whether the key is there already. -/
def hashAdd (hash : Key → Nat) (h : Hash Addr Key) (add : Addr) (keyptr : Key) : Option (Hash Addr Key) :=
  match h.root with
  | none => hashAddLinked hash h add keyptr add (hashMakeTable add) ((h.app.setNext add none).setPrev add none)
  | some root =>
      hashAddLinked hash h add keyptr root.head { root.tbl with tail := add } (h.app.append (some root.tbl.tail) add)

def hashDelete (h : Hash Addr Key) (delptr : Addr) : Option (Hash Addr Key) :=
  h.root.bind fun root =>
    if h.app.prev delptr = none ∧ h.app.next delptr = none then some { h with root := none }
    else
      (if delptr = root.tbl.tail then h.app.prev delptr else some root.tbl.tail).bind fun tail =>
        (if h.app.prev delptr = none then h.app.next delptr else some root.head).bind fun head =>
          let bkt := hashToBkt (h.hashv delptr) root.tbl.numBuckets
          let old := root.tbl.buckets bkt
          let hhHead := if old.hhHead = some delptr then h.chain.next delptr else old.hhHead
          let buckets := Function.update root.tbl.buckets bkt ⟨hhHead, decr old.count, old.expandMult⟩
          some { h with
            root := some ⟨head, { root.tbl with buckets, tail, numItems := decr root.tbl.numItems }⟩
            app := h.app.unlink delptr
            chain := h.chain.unlink delptr }

/-! ### The integrity check -/

/-- One list of `HASH_FSCK`, with at most so many elements: their number, or `none` for a wrong back link. -/
def checkList (links : Links Addr) : Nat → Option Addr → Option Addr → Option Nat
  | _, _, none => some 0
  | 0, _, some _ => none
  | steps + 1, prev, some thh =>
      if links.prev thh = prev then (checkList links steps (some thh) (links.next thh)).map (· + 1) else none

def checkBkt (links : Links Addr) (numItems : Nat) (bucket : UtHashBucket Addr) (total : Nat) : Option Nat :=
  (checkList links numItems none bucket.hhHead).bind fun bktCount =>
    if bucket.count = bktCount then some (total + bktCount) else none

def hashFsck (h : Hash Addr Key) : Bool :=
  match h.root with
  | none => true
  | some root =>
      let chained := (List.range root.tbl.numBuckets).foldlM
        (fun total i => checkBkt h.chain root.tbl.numItems (root.tbl.buckets i) total) 0
      decide (chained = some root.tbl.numItems) &&
        decide (checkList h.app root.tbl.numItems none (some root.head) = some root.tbl.numItems)

end SkyeFS.Uthash
