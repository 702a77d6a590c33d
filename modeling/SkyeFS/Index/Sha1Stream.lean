import SkyeFS.Foundation.BlockBuffer
import SkyeFS.Index.Sha1

/-! Hashing in pieces, after `SHA1Init`, `SHA1Update`, `SHA1Final` and `shahash` of common/sha.c.

The context keeps the bytes of an unfinished block. An update copies into the buffer as
much as fits and runs a block whenever the buffer is full; compiled for fast copying it
runs whole blocks where they lie and copies only the ends. Neither the pieces, nor the way
of copying, nor what the buffer or the stack held before shows in the digest: it is SHA-1
of the concatenation.
-/

set_option autoImplicit false

namespace SkyeFS.Index.Sha1

open Foundation

/-! ### The standard -/

def initialHash : Words := ⟨0x67452301#32, 0xefcdab89#32, 0x98badcfe#32, 0x10325476#32, 0xc3d2e1f0#32⟩

def bigEndianBytes {w : Nat} (x : BitVec w) : List Byte :=
  (List.range (w / 8)).map fun i => x.extractLsb' (w - 8 - 8 * i) 8

/-- One bit, zeros up to 56 bytes into a block, and the length in bits. -/
def pad (message : List Byte) : List Byte :=
  message ++ (0x80#8 :: List.replicate ((119 - message.length % 64) % 64) 0#8) ++
    bigEndianBytes (BitVec.ofNat 64 (8 * message.length))

def Words.digest (hash : Words) : Digest := ⟨([hash.a, hash.b, hash.c, hash.d, hash.e].flatMap bigEndianBytes).toArray, rfl⟩

def sha1 (message : List Byte) : Digest :=
  (BlockBuffer.absorb 64 compress ((pad message).length / 64) initialHash (pad message)).digest

/-! ### The code -/

structure Sha1Context where
  totalLength : BitVec 64
  hash : Words
  bufferLength : Nat
  buffer : Vector Byte 64
  unfinished : bufferLength < 64

theorem empty_unfinished : 0 < 64 := Nat.succ_pos 63

/-- The buffer is not cleared. -/
def sha1Init (buffer : Vector Byte 64) : Sha1Context := ⟨0, initialHash, 0, buffer, empty_unfinished⟩

def memcpy (buffer : Vector Byte 64) (offset : Nat) (bytes : List Byte) : Vector Byte 64 :=
  Vector.ofFn fun i => if offset ≤ i.val ∧ i.val < offset + bytes.length then bytes.getD (i.val - offset) 0 else buffer[i]

section
variable (build : Build) (stack : Vector Word 80)

/-- As much as the buffer takes, and the block when it is full. -/
def fill (sc : Sha1Context) (data : List Byte) : Sha1Context × List Byte :=
  let bytesToCopy := min (64 - sc.bufferLength) data.length
  let buffer := memcpy sc.buffer sc.bufferLength (data.take bytesToCopy)
  let totalLength := sc.totalLength + BitVec.ofNat 64 (8 * bytesToCopy)
  if full : sc.bufferLength + bytesToCopy = 64 then
    (⟨totalLength, sha1Guts build stack sc.hash buffer.toList, 0, buffer, empty_unfinished⟩, data.drop bytesToCopy)
  else
    (⟨totalLength, sc.hash, sc.bufferLength + bytesToCopy, buffer, by have := sc.unfinished; omega⟩,
      data.drop bytesToCopy)

/-- `while (len)`; a turn copies at least a byte, so that there are no more turns than bytes. -/
def fillAll : Nat → Sha1Context → List Byte → Sha1Context
  | 0, sc, _ => sc
  | turns + 1, sc, data =>
      if data = [] then sc
      else
        let (next, rest) := fill build stack sc data
        fillAll turns next rest

/-- `while (len > 63)`. -/
def wholeBlocks : Nat → Sha1Context → List Byte → Sha1Context × List Byte
  | 0, sc, data => (sc, data)
  | turns + 1, sc, data =>
      if 63 < data.length then
        wholeBlocks turns
          { sc with
            totalLength := sc.totalLength + 512#64
            hash := sha1Guts build stack sc.hash (data.take 64) } (data.drop 64)
      else (sc, data)

/-- The bytes behind the last whole block; `none` is a copy that runs past the buffer or fills it. -/
def copyRest (sc : Sha1Context) (data : List Byte) : Option Sha1Context :=
  if data = [] then some sc
  else if fits : sc.bufferLength + data.length < 64 then
    some ⟨sc.totalLength + BitVec.ofNat 64 (8 * data.length), sc.hash, sc.bufferLength + data.length,
      memcpy sc.buffer sc.bufferLength data, fits⟩
  else none

def sha1Update (sc : Sha1Context) (data : List Byte) : Option Sha1Context :=
  if build.fastCopy then
    let (sc, data) := if sc.bufferLength ≠ 0 then fill build stack sc data else (sc, data)
    let (sc, data) := wholeBlocks build stack data.length sc data
    copyRest sc data
  else some (fillAll build stack data.length sc data)

def padding : List Byte := 0x80#8 :: List.replicate 63 0#8

def byteswap64 (x : BitVec 64) : BitVec 64 :=
  if build.bigEndianWords then x
  else
    let a : Word := (x >>> 32).setWidth 32
    let b : Word := x.setWidth 32
    (byteswap build b).setWidth 64 <<< 32 ||| (byteswap build a).setWidth 64

def bytesAt {w : Nat} (x : BitVec w) : List Byte :=
  (List.range (w / 8)).map fun i =>
    if build.bigEndianWords then x.extractLsb' (w - 8 - 8 * i) 8 else x.extractLsb' (8 * i) 8

/-- A word of the hash in the output, written as a whole or byte by byte. -/
def storeWord (word : Word) : List Byte :=
  if build.fastCopy then bytesAt build (byteswap build word)
  else [(word >>> 24).setWidth 8, (word >>> 16).setWidth 8, (word >>> 8).setWidth 8, word.setWidth 8]

theorem length_storeWord (word : Word) : (storeWord build word).length = 4 := by
  unfold storeWord
  split <;> rfl

def storeHash (hash : Words) : Digest :=
  ⟨([hash.a, hash.b, hash.c, hash.d, hash.e].flatMap (storeWord build)).toArray, by
    simp [length_storeWord, sha1HashSize]⟩

def sha1Final (sc : Sha1Context) : Option Digest := do
  let bytesToPad := if 64 < 120 - sc.bufferLength then 120 - sc.bufferLength - 64 else 120 - sc.bufferLength
  let lengthPad := byteswap64 build sc.totalLength
  let padded ← sha1Update build stack sc (padding.take bytesToPad)
  let ended ← sha1Update build stack padded (bytesAt build lengthPad)
  return storeHash build ended.hash

def shahash (buffer : Vector Byte 64) (str : List Byte) : Option Digest :=
  (sha1Update build stack (sha1Init buffer) str).bind (sha1Final build stack)

end

/-! ### Updates as a stream -/

def Sha1Context.view (sc : Sha1Context) : Words × List Byte := (sc.hash, sc.buffer.toList.take sc.bufferLength)

/-- These bytes have been taken in. -/
structure Sha1Context.Takes (before : Sha1Context) (data : List Byte) (after : Sha1Context) : Prop where
  view : after.view = BlockBuffer.feed 64 compress before.view data
  length : after.totalLength = before.totalLength + BitVec.ofNat 64 (8 * data.length)

theorem Sha1Context.length_view (sc : Sha1Context) : sc.view.2.length = sc.bufferLength := by
  have := sc.unfinished
  simp only [view, List.length_take, Vector.length_toList]
  omega

namespace Sha1Context.Takes

theorem nothing (sc : Sha1Context) : sc.Takes [] sc where
  view := by
    apply Eq.symm
    apply BlockBuffer.feed_nil
    rw [sc.length_view]
    exact sc.unfinished
  length := by simp

theorem trans {before middle after : Sha1Context} {first second : List Byte} (taken : before.Takes first middle)
    (more : middle.Takes second after) : before.Takes (first ++ second) after where
  view := by
    rw [more.view, taken.view]
    exact BlockBuffer.feed_append empty_unfinished second
  length := by
    rw [more.length, taken.length, BitVec.add_assoc, ← BitVec.ofNat_add, List.length_append, Nat.mul_add]

end Sha1Context.Takes

theorem memcpy_take (buffer : Vector Byte 64) (offset : Nat) (bytes : List Byte) (fits : offset + bytes.length ≤ 64) :
    (memcpy buffer offset bytes).toList.take (offset + bytes.length) = buffer.toList.take offset ++ bytes := by
  have short : (buffer.toList.take offset).length = offset := by
    rw [List.length_take, Vector.length_toList]
    omega
  apply List.ext_getElem
  · rw [List.length_take, Vector.length_toList, List.length_append, short]
    omega
  · intro i bounded other
    rw [List.length_append, short] at other
    simp only [List.getElem_take, Vector.getElem_toList, memcpy, Vector.getElem_ofFn]
    by_cases kept : i < offset
    · rw [if_neg (by omega), List.getElem_append_left (by omega), List.getElem_take, Vector.getElem_toList]
      rfl
    · rw [if_pos (by omega), List.getElem_append_right (by omega), List.getD_eq_getElem?_getD,
        List.getElem?_eq_getElem (by omega), Option.getD_some]
      simp only [short]

section
variable (build : Build) (stack : Vector Word 80)

theorem fill_takes (sc : Sha1Context) (data : List Byte) :
    ∃ front next rest, fill build stack sc data = (next, rest) ∧ data = front ++ rest ∧ sc.Takes front next ∧
      (next.bufferLength = 0 ∨ rest = []) ∧ (data ≠ [] → front ≠ []) := by
  -- The front of the data is taken, and something is left only behind a finished block.
  let bytesToCopy := min (64 - sc.bufferLength) data.length
  have unfinished := sc.unfinished
  have copied : (data.take bytesToCopy).length = bytesToCopy := by
    rw [List.length_take]
    omega
  have buffered := memcpy_take sc.buffer sc.bufferLength (data.take bytesToCopy) (by omega)
  have joined : data = data.take bytesToCopy ++ data.drop bytesToCopy := (List.take_append_drop _ _).symm
  have moves : data ≠ [] → data.take bytesToCopy ≠ [] := by
    intro more none_
    have := List.length_pos_of_ne_nil more
    rw [none_, List.length_nil] at copied
    omega
  by_cases full : sc.bufferLength + bytesToCopy = 64
  · refine ⟨_, _, _, dif_pos full, joined, ⟨?_, by rw [copied]⟩, Or.inl rfl, moves⟩
    have whole : sc.view.2.length + (data.take bytesToCopy).length = 64 := by rw [sc.length_view, copied, full]
    rw [copied, full, List.take_of_length_le (by rw [Vector.length_toList])] at buffered
    rw [BlockBuffer.feed_full empty_unfinished whole, Sha1Context.view, List.take_zero, sha1Guts_eq, buffered]
    rfl
  · have everything : data.drop bytesToCopy = [] := List.drop_eq_nil_of_le (by omega)
    refine ⟨_, _, _, dif_neg full, joined, ⟨?_, by rw [copied]⟩, Or.inr everything, moves⟩
    rw [copied] at buffered
    rw [BlockBuffer.feed_room (by rw [sc.length_view, copied]; omega), Sha1Context.view, buffered]
    rfl

theorem fillAll_takes (turns : Nat) (sc : Sha1Context) (data : List Byte) (enough : data.length ≤ turns) :
    sc.Takes data (fillAll build stack turns sc data) := by
  induction turns generalizing sc data with
  | zero =>
    cases List.length_eq_zero_iff.mp (Nat.le_zero.mp enough)
    exact .nothing sc
  | succ turns ih =>
    rw [fillAll]
    split
    case isTrue empty =>
      subst empty
      exact .nothing sc
    case isFalse more =>
      obtain ⟨front, next, rest, filled, rfl, taken, -, moves⟩ := fill_takes build stack sc data
      have moved := List.length_pos_of_ne_nil (moves more)
      rw [List.length_append] at enough
      rw [filled]
      exact taken.trans (ih next rest (by omega))

theorem wholeBlocks_takes (turns : Nat) (sc : Sha1Context) (data : List Byte) (empty : sc.bufferLength = 0)
    (enough : data.length ≤ turns) :
    ∃ blocks next rest, wholeBlocks build stack turns sc data = (next, rest) ∧ data = blocks ++ rest ∧
      sc.Takes blocks next ∧ next.bufferLength = 0 ∧ rest.length < 64 := by
  -- Blocks run where they lie, with nothing in the buffer.
  induction turns generalizing sc data with
  | zero => exact ⟨[], sc, data, rfl, rfl, .nothing sc, empty, by omega⟩
  | succ turns ih =>
    rw [wholeBlocks]
    split
    case isFalse short => exact ⟨[], sc, data, rfl, rfl, .nothing sc, empty, by omega⟩
    case isTrue long =>
      obtain ⟨blocks, next, rest, ran, joined, taken, still, short⟩ := ih
        ⟨sc.totalLength + 512#64, sha1Guts build stack sc.hash (data.take 64), sc.bufferLength, sc.buffer, sc.unfinished⟩
        (data.drop 64) empty (by rw [List.length_drop]; omega)
      have block : (data.take 64).length = 64 := by
        rw [List.length_take]
        omega
      have whole : sc.view.2.length + (data.take 64).length = 64 := by rw [sc.length_view, block, empty]
      refine ⟨data.take 64 ++ blocks, next, rest, ran, ?_, Sha1Context.Takes.trans ⟨?_, by rw [block]⟩ taken, still, short⟩
      · rw [List.append_assoc, ← joined, List.take_append_drop]
      · rw [BlockBuffer.feed_full empty_unfinished whole]
        simp only [Sha1Context.view, empty, List.take_zero, List.nil_append, sha1Guts_eq]

theorem wholeBlocks_nil (turns : Nat) (sc : Sha1Context) : wholeBlocks build stack turns sc [] = (sc, []) := by
  cases turns <;> rfl

theorem copyRest_takes (sc : Sha1Context) (data : List Byte) (fits : sc.bufferLength + data.length < 64) :
    ∃ after, copyRest sc data = some after ∧ sc.Takes data after := by
  by_cases none_ : data = []
  · subst none_
    exact ⟨sc, if_pos rfl, .nothing sc⟩
  · refine ⟨_, (if_neg none_).trans (dif_pos fits), ?_, rfl⟩
    rw [BlockBuffer.feed_room (by rw [sc.length_view]; exact fits), Sha1Context.view, memcpy_take _ _ _ fits.le]
    rfl

theorem fastRest_takes (sc : Sha1Context) (data : List Byte) (ready : sc.bufferLength = 0 ∨ data = []) :
    ∃ after, (let (sc, data) := wholeBlocks build stack data.length sc data; copyRest sc data) = some after ∧
      sc.Takes data after := by
  rcases ready with empty | rfl
  · obtain ⟨blocks, next, rest, ran, joined, taken, still, short⟩ :=
      wholeBlocks_takes build stack data.length sc data empty le_rfl
    obtain ⟨after, copied, more⟩ := copyRest_takes next rest (by omega)
    rw [ran]
    refine ⟨after, copied, ?_⟩
    rw [joined]
    exact taken.trans more
  · rw [wholeBlocks_nil build stack]
    exact ⟨sc, rfl, .nothing sc⟩

/-- Either way of copying takes in the data, and stays in the buffer. -/
theorem sha1Update_takes (sc : Sha1Context) (data : List Byte) :
    ∃ after, sha1Update build stack sc data = some after ∧ sc.Takes data after := by
  unfold sha1Update
  split
  case isFalse plain => exact ⟨_, rfl, fillAll_takes build stack data.length sc data le_rfl⟩
  case isTrue fast =>
    by_cases empty : sc.bufferLength = 0
    · rw [if_neg (not_not.mpr empty)]
      exact fastRest_takes build stack sc data (Or.inl empty)
    · obtain ⟨front, next, rest, filled, rfl, taken, ready, -⟩ := fill_takes build stack sc data
      obtain ⟨after, ended, more⟩ := fastRest_takes build stack next rest ready
      rw [if_pos empty, filled]
      exact ⟨after, ended, taken.trans more⟩

end

/-! ### The end of the message -/

section
variable {build : Build}

theorem getLsbD_byteswap (little : ¬ build.bigEndianWords) (x : Word) {i : Nat} (bounded : i < 32) :
    (byteswap build x).getLsbD i = x.getLsbD (8 * (3 - i / 8) + i % 8) := by
  simp only [byteswap, if_neg little, rotr, rotl, BitVec.getLsbD_or, BitVec.getLsbD_and, BitVec.getLsbD_shiftLeft,
    BitVec.getLsbD_ushiftRight]
  interval_cases i <;> simp

theorem getLsbD_byteswap64 (little : ¬ build.bigEndianWords) (x : BitVec 64) {i : Nat} (bounded : i < 64) :
    (byteswap64 build x).getLsbD i = x.getLsbD (8 * (7 - i / 8) + i % 8) := by
  simp only [byteswap64, if_neg little, BitVec.getLsbD_or, BitVec.getLsbD_shiftLeft, BitVec.getLsbD_setWidth]
  -- The lower half of the result is the upper half of the argument.
  by_cases low : i < 32
  · rw [getLsbD_byteswap little _ low]
    have place : 32 + (8 * (3 - i / 8) + i % 8) = 8 * (7 - i / 8) + i % 8 := by omega
    have inside : 8 * (3 - i / 8) + i % 8 < 32 := by omega
    simp [low, bounded, inside, place, BitVec.getLsbD_ushiftRight]
  · have above : (byteswap build ((x >>> 32).setWidth 32)).getLsbD i = false := BitVec.getLsbD_of_ge _ _ (by omega)
    rw [above, getLsbD_byteswap little _ (by omega : i - 32 < 32)]
    have place : 8 * (3 - (i - 32) / 8) + (i - 32) % 8 = 8 * (7 - i / 8) + i % 8 := by omega
    have inside : 8 * (7 - i / 8) + i % 8 < 32 := by omega
    simp [low, bounded, inside, place, show i - 32 < 64 by omega]

/-- A word whose bytes were reversed lies in memory most significant byte first. -/
theorem bytesAt_reversed {w : Nat} {x swapped : BitVec w} (little : ¬ build.bigEndianWords)
    (reversed : ∀ i < w, swapped.getLsbD i = x.getLsbD (8 * (w / 8 - 1 - i / 8) + i % 8)) (whole : w % 8 = 0) :
    bytesAt build swapped = bigEndianBytes x := by
  simp only [bytesAt, if_neg little, bigEndianBytes]
  apply List.map_congr_left
  intro i counted
  have below := List.mem_range.mp counted
  apply BitVec.eq_of_getLsbD_eq
  intro k bounded
  rw [BitVec.getLsbD_extractLsb', BitVec.getLsbD_extractLsb', reversed (8 * i + k) (by omega)]
  congr 2
  omega

theorem bytesAt_byteswap (x : Word) : bytesAt build (byteswap build x) = bigEndianBytes x := by
  by_cases big : build.bigEndianWords
  · simp only [bytesAt, byteswap, if_pos big, bigEndianBytes]
  · exact bytesAt_reversed big (fun _ bounded => getLsbD_byteswap big x bounded) rfl

theorem bytesAt_byteswap64 (x : BitVec 64) : bytesAt build (byteswap64 build x) = bigEndianBytes x := by
  by_cases big : build.bigEndianWords
  · simp only [bytesAt, byteswap64, if_pos big, bigEndianBytes]
  · exact bytesAt_reversed big (fun _ bounded => getLsbD_byteswap64 big x bounded) rfl

theorem storeWord_eq : storeWord build = bigEndianBytes := by
  funext word
  unfold storeWord
  split
  case isTrue fast => exact bytesAt_byteswap word
  case isFalse plain =>
    have cut : ∀ place, (word >>> place).setWidth 8 = word.extractLsb' place 8 := by
      intro place
      apply BitVec.eq_of_getLsbD_eq
      intro k bounded
      simp [bounded]
    simp only [bigEndianBytes, ← cut]
    rfl

theorem storeHash_eq (hash : Words) : storeHash build hash = hash.digest := by
  simp only [storeHash, Words.digest, storeWord_eq]

/-- The padding of the code is the padding of the standard. -/
theorem padding_eq (message : List Byte) (bufferLength : Nat) (rest : bufferLength = message.length % 64) :
    padding.take (if 64 < 120 - bufferLength then 120 - bufferLength - 64 else 120 - bufferLength) =
      0x80#8 :: List.replicate ((119 - message.length % 64) % 64) 0#8 := by
  have count : (if 64 < 120 - bufferLength then 120 - bufferLength - 64 else 120 - bufferLength) =
      (119 - message.length % 64) % 64 + 1 := by
    split <;> omega
  rw [count, padding, List.take_succ_cons, List.take_replicate]
  congr 2
  omega

end

theorem updates_take (build : Build) (stack : Vector Word 80) (sc : Sha1Context) (pieces : List (List Byte)) :
    ∃ after, pieces.foldlM (sha1Update build stack) sc = some after ∧ sc.Takes pieces.flatten after := by
  induction pieces generalizing sc with
  | nil => exact ⟨sc, rfl, .nothing sc⟩
  | cons piece rest ih =>
    obtain ⟨next, updated, taken⟩ := sha1Update_takes build stack sc piece
    obtain ⟨after, ended, more⟩ := ih next
    refine ⟨after, ?_, taken.trans more⟩
    rw [List.foldlM_cons, updated]
    exact ended

theorem sha1Final_eq {build : Build} {stack : Vector Word 80} {buffer : Vector Byte 64} {message : List Byte}
    {sc : Sha1Context} (taken : (sha1Init buffer).Takes message sc) :
    sha1Final build stack sc = some (sha1 message) := by
  have waiting : sc.bufferLength = message.length % 64 := by
    rw [← sc.length_view, taken.view, BlockBuffer.length_feed, (sha1Init buffer).length_view]
    exact congrArg (· % 64) (Nat.zero_add _)
  obtain ⟨padded, first, more⟩ := sha1Update_takes build stack sc
    (padding.take (if 64 < 120 - sc.bufferLength then 120 - sc.bufferLength - 64 else 120 - sc.bufferLength))
  obtain ⟨ended, last, end_⟩ := sha1Update_takes build stack padded (bytesAt build (byteswap64 build sc.totalLength))
  have length : sc.totalLength = BitVec.ofNat 64 (8 * message.length) := taken.length.trans (BitVec.zero_add _)
  have whole := ((taken.trans more).trans end_).view
  rw [padding_eq message sc.bufferLength waiting, bytesAt_byteswap64, length] at whole
  have hash : ended.hash = BlockBuffer.absorb 64 compress ((pad message).length / 64) initialHash (pad message) :=
    congrArg Prod.fst whole
  have stored : storeHash build ended.hash = sha1 message := by
    rw [storeHash_eq, hash, sha1]
  simp only [sha1Final, first, last, Option.bind_eq_bind, Option.bind_some, stored]
  rfl

/-- However the message is cut into pieces and the file is compiled, the digest is the one of the standard, and the
index of a name is the last bits of its digest. -/
theorem shahash_is_sha1 (build : Build) (stack : Vector Word 80) (buffer : Vector Byte 64) (pieces : List (List Byte)) :
    (pieces.foldlM (sha1Update build stack) (sha1Init buffer)).bind (sha1Final build stack) =
        some (sha1 pieces.flatten) ∧
      ∀ str, shahash build stack buffer str = some (sha1 str) ∧
        ∀ radix : Fin maxRadix, (shahash build stack buffer str).bind (fun digest =>
          computeIndex (binary2hex digest.toList) radix) = some (bigEndian (sha1 str).toList % 2 ^ radix.val) := by
  constructor
  · obtain ⟨sc, updated, taken⟩ := updates_take build stack (sha1Init buffer) pieces
    rw [updated]
    exact sha1Final_eq taken
  · intro str
    obtain ⟨sc, updated, taken⟩ := sha1Update_takes build stack (sha1Init buffer) str
    have hashed : shahash build stack buffer str = some (sha1 str) := by
      rw [shahash, updated]
      exact sha1Final_eq taken
    apply And.intro hashed
    intro radix
    rw [hashed]
    exact computeIndex_binary2hex (sha1 str) radix.isLt

end SkyeFS.Index.Sha1
