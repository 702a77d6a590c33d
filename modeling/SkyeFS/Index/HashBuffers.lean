import SkyeFS.Index.Mapping
import SkyeFS.Foundation.Buffers

/-! The arrays that the name hash passes through, after common/giga_index.c and common/sha.c.

The digest of a name goes through three arrays on the stack: the digest itself, its
hexadecimal text in an array of the caller, and the digest read back from the text. Here
every function is what the C code does to them, access by access. What they compute is
what the functions on lists in `SkyeFS.Index.Digest` compute.
-/

set_option autoImplicit false

namespace SkyeFS.Index.HashBuffers

open Foundation Foundation.Memory

inductive Buffer where
  -- `hash` of the two callers, of `HASH_LEN` characters.
  | hash
  -- `hash` of `giga_hash_name`.
  | digest
  -- `bin_hash` of `compute_index`.
  | binHash
deriving DecidableEq

abbrev Cell : Buffer → Type
  | .hash => Char
  | .digest | .binHash => Byte

def sha1HashWords : Nat := 5

/-- The end of `SHA1Final`: the words of the state, four bytes each. -/
def sha1Final (digest : Digest) : StateM (Memory Cell) Unit :=
  loop (fun i _ => do
    store .digest (4 * i) (digest.toList.getD (4 * i) 0)
    store .digest (4 * i + 1) (digest.toList.getD (4 * i + 1) 0)
    store .digest (4 * i + 2) (digest.toList.getD (4 * i + 2) 0)
    store .digest (4 * i + 3) (digest.toList.getD (4 * i + 3) 0)) sha1HashWords ()

/-- `sprintf(hex + position, "%.2x", byte)`: two digits and the terminator. -/
def sprintfHex (position : Int) (byte : Byte) : StateM (Memory Cell) Unit := do
  store .hash position (hexDigit (byte.toNat / 16))
  store .hash (position + 1) (hexDigit (byte.toNat % 16))
  store .hash (position + 2) (Char.ofNat 0)

def binary2hex (len : Nat) : StateM (Memory Cell) Unit := do
  loop (fun i _ => do
    let byte ← load .digest i
    sprintfHex (i * 2) byte) len ()
  store .hash (len * 2) (Char.ofNat 0)

/-- The counter of the source is twice the one here. -/
def hex2binary (len : Nat) : StateM (Memory Cell) Unit :=
  loop (fun i _ => do
    let high ← load .hash (2 * i)
    let low ← load .hash (2 * i + 1)
    store .binHash i (hexDigit2binary high <<< 4 ||| hexDigit2binary low)) ((len + 1) / 2) ()

/-- The whole bytes from the end of `bin_hash`, the last one first. -/
def addBytes (count : Nat) : StateM (Memory Cell) Nat :=
  loop (fun i index => do
    let currByte ← load .binHash ((sha1HashSize : Int) - 1 - i)
    return index + currByte.toNat <<< (i * 8)) count 0

/-- `none` is the failed assertion on the radix. -/
def computeIndex (radix : Nat) : StateM (Memory Cell) (Option Nat) :=
  if radix < maxRadix then do
    fill .binHash sha1HashSize 0#8
    hex2binary hashLen
    let residualUsefulBits := radix % 8
    let numUsefulBytes :=
      if residualUsefulBits ≠ 0 ∨ 0 < radix / 8 then radix / 8 + 1 else radix / 8
    -- The loop leaves its counter at the last, partial byte.
    let last := numUsefulBytes - 1
    let index ← addBytes last
    let currByte ← load .binHash ((sha1HashSize : Int) - 1 - last)
    return some (index + (currByte.toNat &&& (1 <<< residualUsefulBits - 1)) <<< (last * 8))
  else return none

section
variable {Name : Type} (shahash : Name → Digest)

def gigaHashName (hashKey : Name) : StateM (Memory Cell) Unit := do
  fill .digest sha1HashSize 0#8
  sha1Final (shahash hashKey)
  binary2hex sha1HashSize

/-- The beginning of both callers. The radix is computed after the hash; `none` is a failed assertion there. -/
def indexOfName (filename : Name) (radix : Option Nat) : StateM (Memory Cell) (Option Nat) := do
  fill .hash hashLen (Char.ofNat 0)
  gigaHashName shahash filename
  match radix with
  | some radix => computeIndex radix
  | none => return none

def gigaGetIndexForFile (mapping : GigaMapping) (filename : Name) : StateM (Memory Cell) (Option Nat) := do
  let index ← indexOfName shahash filename (getRadixFromBmap mapping.bitmap)
  return index.bind fun index => findPartition mapping.bitmap (index + 1) index

def gigaFileMigrationStatus (filename : Name) (newIndex : Nat) : StateM (Memory Cell) (Option Bool) := do
  let index ← indexOfName shahash filename (some (getRadixFromIndex newIndex))
  return index.map (· == newIndex)

end

/-! ### The bytes that arrive -/

section
variable (digest : Digest) (count : Nat) (stack : Memory Cell)

def HoldsDigest : Prop := ∀ i < count, stack.cells .digest i = digest.toList.getD i 0

/-- Two digits for each of the first bytes are in the array of the caller. -/
def HoldsText : Prop :=
  ∀ i < count, stack.cells .hash (2 * i) = hexDigit ((digest.toList.getD i 0).toNat / 16) ∧
    stack.cells .hash (2 * i + 1) = hexDigit ((digest.toList.getD i 0).toNat % 16)

def HoldsBinHash : Prop := ∀ i < count, stack.cells .binHash i = digest.toList.getD i 0

end

theorem sha1Final_holds (digest : Digest) (stack : Memory Cell) :
    HoldsDigest digest (4 * sha1HashWords) (sha1Final digest stack).2 := by
  refine loop_induction (fun words _ stack => HoldsDigest digest (4 * words) stack) ?_ ?_
  · intro i below
    omega
  · intro words _ _ stack before i below
    simp only [bind_apply, store_self, Function.update_apply]
    -- The last of the four stores is the outermost update.
    split_ifs with third second first zeroth
    · rw [show i = 4 * words + 3 by omega]
    · rw [show i = 4 * words + 2 by omega]
    · rw [show i = 4 * words + 1 by omega]
    · rw [show i = 4 * words by omega]
    · exact before i (by omega)

theorem sprintfHex_digest (position : Int) (byte : Byte) (stack : Memory Cell) :
    (sprintfHex position byte stack).2.cells .digest = stack.cells .digest := by
  simp only [sprintfHex, bind_apply]
  rw [store_other (by decide), store_other (by decide), store_other (by decide)]

theorem sprintfHex_hash (position : Int) (byte : Byte) (stack : Memory Cell) (offset : Int) :
    (sprintfHex position byte stack).2.cells .hash offset =
      if offset = position + 2 then Char.ofNat 0
      else if offset = position + 1 then hexDigit (byte.toNat % 16)
      else if offset = position then hexDigit (byte.toNat / 16)
      else stack.cells .hash offset := by
  simp only [sprintfHex, bind_apply, store_self, Function.update_apply]

theorem sprintfHex_holds {digest : Digest} {bytes : Nat} {stack : Memory Cell} (holds : HoldsText digest bytes stack) :
    HoldsText digest (bytes + 1) (sprintfHex (bytes * 2) (digest.toList.getD bytes 0) stack).2 := by
  -- A byte is printed behind the earlier ones, over the terminator of the last of them.
  intro i below
  rw [sprintfHex_hash, sprintfHex_hash]
  rcases Nat.lt_succ_iff_lt_or_eq.mp below with earlier | rfl
  · obtain ⟨high, low⟩ := holds i earlier
    rw [if_neg (by omega), if_neg (by omega), if_neg (by omega), high]
    rw [if_neg (by omega), if_neg (by omega), if_neg (by omega), low]
    exact ⟨rfl, rfl⟩
  · rw [if_neg (by omega), if_neg (by omega), if_pos (by omega), if_neg (by omega), if_pos (by omega)]
    exact ⟨rfl, rfl⟩

theorem binary2hex_holds {digest : Digest} {len : Nat} {stack : Memory Cell} (holds : HoldsDigest digest len stack) :
    HoldsText digest len (binary2hex len stack).2 := by
  -- The terminator stands behind the digits and overwrites none of them.
  have terminated : ∀ stack : Memory Cell, HoldsText digest len stack →
      HoldsText digest len (store .hash (len * 2) (Char.ofNat 0) stack).2 := by
    intro stack printed i below
    rw [store_self, Function.update_of_ne (by omega), Function.update_of_ne (by omega)]
    exact printed i below
  refine terminated _ (loop_induction
    (fun bytes _ stack => HoldsDigest digest len stack ∧ HoldsText digest bytes stack) ⟨holds, ?_⟩ ?_).2
  · intro i below
    omega
  · intro bytes inside _ stack before
    obtain ⟨held, printed⟩ := before
    have byte : stack.cells .digest bytes = digest.toList.getD bytes 0 := held bytes inside
    simp only [bind_apply, load_value]
    rw [byte]
    refine ⟨?_, sprintfHex_holds printed⟩
    intro i below
    rw [sprintfHex_digest, load_cells]
    exact held i below

theorem hex2binary_holds {digest : Digest} {count : Nat} {stack : Memory Cell} (holds : HoldsText digest count stack) :
    HoldsBinHash digest count (hex2binary (2 * count) stack).2 := by
  -- The counter of the source goes up by two, below a length that is even.
  have rounds : (2 * count + 1) / 2 = count := by omega
  rw [hex2binary, rounds]
  refine (loop_induction (fun bytes _ stack => HoldsText digest count stack ∧ HoldsBinHash digest bytes stack)
    ⟨holds, ?_⟩ ?_).2
  · intro i below
    omega
  · intro bytes inside _ stack before
    obtain ⟨text, read⟩ := before
    obtain ⟨high, low⟩ := text bytes inside
    simp only [bind_apply, load_value, load_cells, high, low]
    rw [hexDigit_roundtrip]
    constructor
    · intro i below
      rw [store_other (by decide), load_cells, load_cells]
      exact text i below
    · intro i below
      rw [store_self, load_cells, load_cells, Function.update_apply]
      split
      · rename_i same
        rw [Int.ofNat_inj.mp same]
      · exact read i (by omega)

/-- The loop over the bytes ends inside the digest. -/
theorem last_lt {radix : Nat} (bounded : radix < maxRadix) :
    (if radix % 8 ≠ 0 ∨ 0 < radix / 8 then radix / 8 + 1 else radix / 8) - 1 < sha1HashSize := by
  simp only [maxRadix, sha1HashSize] at bounded ⊢
  split <;> omega

theorem HoldsBinHash.fromEnd {digest : Digest} {stack : Memory Cell} (holds : HoldsBinHash digest sha1HashSize stack)
    {i : Nat} (few : i < sha1HashSize) :
    stack.cells .binHash ((sha1HashSize : Int) - 1 - i) = digest.toList.getD (sha1HashSize - 1 - i) 0 := by
  have offset : (sha1HashSize : Int) - 1 - i = (sha1HashSize - 1 - i : Nat) := by omega
  rw [offset]
  exact holds _ (by omega)

theorem addBytes_value {digest : Digest} {stack : Memory Cell} (holds : HoldsBinHash digest sha1HashSize stack)
    {count : Nat} (few : count < sha1HashSize) :
    (addBytes count stack).1 = (List.range count).foldl
        (fun index i => index + (digest.toList.getD (sha1HashSize - 1 - i) 0).toNat <<< (i * 8)) 0 ∧
      (addBytes count stack).2.cells = stack.cells := by
  refine loop_induction (fun i index (now : Memory Cell) => index = (List.range i).foldl
        (fun index i => index + (digest.toList.getD (sha1HashSize - 1 - i) 0).toNat <<< (i * 8)) 0 ∧
      now.cells = stack.cells) ⟨rfl, rfl⟩ ?_
  intro i below index now before
  obtain ⟨sum, same⟩ := before
  simp only [bind_apply, pure_apply, load_value, load_cells]
  rw [List.range_succ, List.foldl_append, ← sum, same, holds.fromEnd (below.trans few)]
  exact ⟨rfl, rfl⟩

theorem computeIndex_value {digest : Digest} {stack : Memory Cell} (holds : HoldsText digest sha1HashSize stack)
    (radix : Nat) : (computeIndex radix stack).1 = Index.computeIndex (Index.binary2hex digest.toList) radix := by
  have read : HoldsBinHash digest sha1HashSize (hex2binary hashLen (fill .binHash sha1HashSize 0#8 stack).2).2 := by
    apply hex2binary_holds
    intro i below
    rw [fill_other (by decide)]
    exact holds i below
  by_cases bounded : radix < maxRadix
  · simp only [computeIndex, Index.computeIndex, if_pos bounded, hex2binary_digest, bind_apply, pure_apply, load_value]
    have few := last_lt bounded
    generalize (if radix % 8 ≠ 0 ∨ 0 < radix / 8 then radix / 8 + 1 else radix / 8) - 1 = last at few ⊢
    obtain ⟨sum, same⟩ := addBytes_value read few
    rw [sum, same, read.fromEnd few]
  · rw [computeIndex, Index.computeIndex, if_neg bounded, if_neg bounded]
    rfl

section
variable {Name : Type} (shahash : Name → Digest)

theorem gigaHashName_holds (name : Name) (stack : Memory Cell) :
    HoldsText (shahash name) sha1HashSize (gigaHashName shahash name stack).2 := by
  simp only [gigaHashName, bind_apply]
  exact binary2hex_holds (sha1Final_holds _ _)

theorem indexOfName_value (name : Name) (radix : Option Nat) (stack : Memory Cell) :
    (indexOfName shahash name radix stack).1 = radix.bind (Index.computeIndex (Index.gigaHashName shahash name)) := by
  simp only [indexOfName, bind_apply]
  cases radix with
  | none => rfl
  | some radix => exact computeIndex_value (gigaHashName_holds shahash name _) radix

/-- The lookup with its arrays finds what the lookup on lists finds, whatever is on the stack before. -/
theorem gigaGetIndexForFile_value (mapping : GigaMapping) (name : Name) (stack : Memory Cell) :
    (gigaGetIndexForFile shahash mapping name stack).1 = Index.gigaGetIndexForFile shahash mapping name := by
  simp only [gigaGetIndexForFile, bind_apply, pure_apply, indexOfName_value]
  exact Option.bind_assoc _ _ _

theorem gigaFileMigrationStatus_value (name : Name) (newIndex : Nat) (stack : Memory Cell) :
    (gigaFileMigrationStatus shahash name newIndex stack).1 = Index.gigaFileMigrationStatus shahash name newIndex := by
  simp only [gigaFileMigrationStatus, bind_apply, pure_apply, indexOfName_value]
  rfl

end

/-! ### The offsets -/

def Buffer.length : Buffer → Nat
  | .hash => hashLen
  | .digest | .binHash => sha1HashSize

def terminator : Access Buffer := ⟨.store, .hash, hashLen⟩

def Inside (access : Access Buffer) : Prop := 0 ≤ access.offset ∧ access.offset < access.buffer.length

/-- Inside the array, or the one store just behind it. -/
def Tolerated (access : Access Buffer) : Prop := Inside access ∨ access = terminator

theorem Tolerated.of_lt {kind : AccessKind} {buffer : Buffer} {offset : Int} (lower : 0 ≤ offset)
    (upper : offset < buffer.length) : Tolerated ⟨kind, buffer, offset⟩ := Or.inl ⟨lower, upper⟩

theorem Tolerated.of_le_hashLen {offset : Int} (lower : 0 ≤ offset) (upper : offset ≤ hashLen) :
    Tolerated ⟨.store, .hash, offset⟩ := by
  rcases Int.lt_or_eq_of_le upper with inside | rfl
  · exact of_lt lower inside
  · exact Or.inr rfl

theorem Tolerated.counter {kind : AccessKind} {buffer : Buffer} {i : Nat} (below : i < buffer.length) :
    Tolerated ⟨kind, buffer, i⟩ := of_lt (Int.natCast_nonneg i) (Int.ofNat_lt.mpr below)

theorem sha1Final_confined (digest : Digest) : Confined Tolerated (sha1Final digest) := by
  apply Confined.loop
  intro i below _
  have inside : 4 * i + 3 < Buffer.digest.length := by
    simp only [Buffer.length, sha1HashSize, sha1HashWords] at below ⊢
    omega
  apply Confined.bind (Confined.store (.of_lt (by omega) (by omega)))
  intro _
  apply Confined.bind (Confined.store (.of_lt (by omega) (by omega)))
  intro _
  apply Confined.bind (Confined.store (.of_lt (by omega) (by omega)))
  intro _
  exact Confined.store (.of_lt (by omega) (by omega))

theorem sprintfHex_confined {position : Int} (lower : 0 ≤ position) (upper : position + 2 ≤ hashLen) (byte : Byte) :
    Confined Tolerated (sprintfHex position byte) := by
  apply Confined.bind (Confined.store (.of_le_hashLen (by omega) (by omega)))
  intro _
  apply Confined.bind (Confined.store (.of_le_hashLen (by omega) (by omega)))
  intro _
  exact Confined.store (.of_le_hashLen (by omega) (by omega))

theorem binary2hex_confined : Confined Tolerated (binary2hex sha1HashSize) := by
  apply Confined.bind
  · apply Confined.loop
    intro i below _
    apply Confined.bind (Confined.load (.counter below))
    intro byte
    -- No better bound holds: the terminator of the last byte is stored at `HASH_LEN` as well.
    have close : i * 2 + 2 ≤ hashLen := by
      simp only [hashLen]
      omega
    exact sprintfHex_confined (by omega) (by omega) byte
  · intro _
    exact Confined.store (.of_le_hashLen (by decide) (by decide))

theorem hex2binary_confined : Confined Tolerated (hex2binary hashLen) := by
  apply Confined.loop
  intro i below _
  have inside : i < Buffer.binHash.length := below
  have text : 2 * i + 1 < Buffer.hash.length := by
    simp only [Buffer.length, hashLen] at inside ⊢
    omega
  apply Confined.bind (Confined.load (.of_lt (by omega) (by omega)))
  intro high
  apply Confined.bind (Confined.load (.of_lt (by omega) (by omega)))
  intro low
  exact Confined.store (.counter inside)

theorem tolerated_fromEnd {i : Nat} (few : i < sha1HashSize) :
    Tolerated ⟨.load, .binHash, (sha1HashSize : Int) - 1 - i⟩ :=
  .of_lt (by omega) (by simp only [Buffer.length]; omega)

theorem addBytes_confined {count : Nat} (few : count < sha1HashSize) : Confined Tolerated (addBytes count) := by
  apply Confined.loop
  intro i below index
  apply Confined.bind (Confined.load (tolerated_fromEnd (below.trans few)))
  intro currByte
  exact Confined.pure _

theorem computeIndex_confined (radix : Nat) : Confined Tolerated (computeIndex radix) := by
  rw [computeIndex]
  split
  · rename_i bounded
    have few := last_lt bounded
    apply Confined.bind (Confined.fill fun i below => .counter below)
    intro _
    apply Confined.bind hex2binary_confined
    intro _
    apply Confined.bind (addBytes_confined few)
    intro index
    apply Confined.bind (Confined.load (tolerated_fromEnd few))
    intro currByte
    exact Confined.pure _
  · exact Confined.pure _

/-- Writes into the caller's array are below `HASH_LEN`, accesses to the digest arrays below `SHA1_HASH_SIZE`. -/
def BuffersRespected (made : List (Access Buffer)) : Prop :=
  (∀ access ∈ made, access.kind = .store → access.buffer = .hash → access.offset < hashLen) ∧
    ∀ access ∈ made, access.buffer ≠ .hash → access.offset < sha1HashSize

instance (made : List (Access Buffer)) : Decidable (BuffersRespected made) :=
  inferInstanceAs (Decidable ((∀ access ∈ made, _) ∧ ∀ access ∈ made, _))

theorem not_respected {made : List (Access Buffer)} (overrun : terminator ∈ made) : ¬ BuffersRespected made := by
  intro respected
  exact Int.lt_irrefl _ (respected.1 terminator overrun rfl rfl)

def accesses {Value : Type} (program : StateM (Memory Cell) Value) (cells : (buffer : Buffer) → Int → Cell buffer) :
    List (Access Buffer) := (program ⟨cells, []⟩).2.accesses

theorem accesses_bind_pure {Value Result : Type} (program : StateM (Memory Cell) Value) (result : Value → Result)
    (cells : (buffer : Buffer) → Int → Cell buffer) :
    accesses (do let value ← program; return result value) cells = accesses program cells := rfl

section
variable {Name : Type} (shahash : Name → Digest) (filename : Name)

theorem gigaHashName_confined : Confined Tolerated (gigaHashName shahash filename) := by
  apply Confined.bind (Confined.fill fun i below => .counter below)
  intro _
  apply Confined.bind (sha1Final_confined _)
  intro _
  exact binary2hex_confined

theorem indexOfName_confined (radix : Option Nat) : Confined Tolerated (indexOfName shahash filename radix) := by
  apply Confined.bind (Confined.fill fun i below => .counter below)
  intro _
  apply Confined.bind (gigaHashName_confined shahash filename)
  intro _
  cases radix with
  | none => exact Confined.pure _
  | some radix => exact computeIndex_confined radix

theorem terminator_mem_gigaHashName (stack : Memory Cell) :
    terminator ∈ (gigaHashName shahash filename stack).2.accesses := by
  -- The last statement of `binary2hex` writes behind the text.
  simp only [gigaHashName, binary2hex, bind_apply]
  exact List.mem_append_right _ (List.mem_singleton_self _)

variable (cells : (buffer : Buffer) → Int → Cell buffer)

theorem terminator_mem (radix : Option Nat) : terminator ∈ accesses (indexOfName shahash filename radix) cells := by
  -- It is written before the radix is looked at, and what follows keeps it in the list.
  cases radix with
  | none =>
    simp only [accesses, indexOfName, bind_apply, pure_apply]
    exact terminator_mem_gigaHashName shahash filename _
  | some radix =>
    simp only [accesses, indexOfName, bind_apply]
    exact (computeIndex_confined radix).mem_of_mem (terminator_mem_gigaHashName shahash filename _)

/-- Of all accesses, only the terminator is not inside its array. -/
theorem overrun_iff (radix : Option Nat) (access : Access Buffer) :
    access ∈ accesses (indexOfName shahash filename radix) cells ∧ ¬ Inside access ↔ access = terminator := by
  constructor
  · rintro ⟨made, outside⟩
    exact ((indexOfName_confined shahash filename radix).allowed_of_mem rfl access made).resolve_left outside
  · rintro rfl
    refine ⟨terminator_mem shahash filename cells radix, ?_⟩
    rintro ⟨-, upper⟩
    exact Int.lt_irrefl _ upper

/-- Both callers write behind their array, for every name and whatever radix the table or the index gives. -/
theorem hash_buffers_overrun :
    (∀ mapping, ¬ BuffersRespected (accesses (gigaGetIndexForFile shahash mapping filename) cells)) ∧
      (∀ newIndex, ¬ BuffersRespected (accesses (gigaFileMigrationStatus shahash filename newIndex) cells)) ∧
      ∀ radix, ¬ BuffersRespected (accesses (indexOfName shahash filename (some radix)) cells) := by
  refine ⟨?_, ?_, ?_⟩
  · intro mapping
    rw [gigaGetIndexForFile, accesses_bind_pure]
    exact not_respected (terminator_mem shahash filename cells _)
  · intro newIndex
    rw [gigaFileMigrationStatus, accesses_bind_pure]
    exact not_respected (terminator_mem shahash filename cells _)
  · intro radix
    exact not_respected (terminator_mem shahash filename cells _)

end

def digestOfA : Digest :=
  ⟨#[0x86, 0xf7, 0xe4, 0x37, 0xfa, 0xa5, 0xa7, 0xfc, 0xe1, 0x5d,
    0x1d, 0xdc, 0xb9, 0xea, 0xea, 0xea, 0x37, 0x76, 0x67, 0xb8], rfl⟩

def cleared : (buffer : Buffer) → Int → Cell buffer
  | .hash, _ => Char.ofNat 0
  | .digest, _ | .binHash, _ => 0#8

theorem hash_buffers_overrun_a :
    ¬ BuffersRespected
      (accesses (gigaGetIndexForFile (fun _ : String => digestOfA) (gigaInitMapping 0 1) "a") cleared) := by
  decide +kernel

end SkyeFS.Index.HashBuffers
