import Mathlib.Data.List.Basic
import Mathlib.Tactic.IntervalCases

/-! The name hash and its low bits, after common/sha.c and common/giga_index.c.

A name is hashed to twenty bytes, written as lower case hexadecimal text, read
back into bytes, and reduced to its last `radix` bits. SHA-1 itself is a
parameter: nothing below depends on which function of the name it is.
-/

set_option autoImplicit false

namespace SkyeFS.Index

abbrev Byte := BitVec 8

def sha1HashSize : Nat := 20
def hashLen : Nat := 2 * sha1HashSize
def maxRadix : Nat := 10

/-- The output of `shahash`. -/
abbrev Digest := Vector Byte sha1HashSize

/-- A hash that gives every name the same bytes. -/
def flatDigest {Name : Type} (byte : Byte) (_ : Name) : Digest := Vector.replicate sha1HashSize byte

def hexDigit (nibble : Nat) : Char :=
  if nibble < 10 then Char.ofNat ('0'.toNat + nibble) else Char.ofNat ('a'.toNat + (nibble - 10))

/-- Two digits a byte, then the terminator. -/
def binary2hex (buf : List Byte) : List Char :=
  buf.flatMap (fun byte => [hexDigit (byte.toNat / 16), hexDigit (byte.toNat % 16)]) ++ [Char.ofNat 0]

def hexDigit2binary (hex : Char) : Byte :=
  let upper := hex.toUpper
  if upper ≤ '9' then BitVec.ofNat 8 (upper.toNat - '0'.toNat)
  else BitVec.ofNat 8 (upper.toNat - ('A'.toNat - 10))

/-- Two characters are consumed for each byte until `len` characters are read. -/
def hex2binary : List Char → Nat → List Byte
  | high :: low :: rest, len + 2 =>
      (hexDigit2binary high <<< 4 ||| hexDigit2binary low) :: hex2binary rest len
  | _, _ => []

/-- The last `radix` bits of the hash; `none` is the failed assertion on the radix. -/
def computeIndex (hashValue : List Char) (radix : Nat) : Option Nat :=
  if radix < maxRadix then
    let binHash := hex2binary hashValue hashLen
    let residualUsefulBits := radix % 8
    let numUsefulBytes :=
      if residualUsefulBits ≠ 0 ∨ 0 < radix / 8 then radix / 8 + 1 else radix / 8
    let currByte := fun i => (binHash.getD (sha1HashSize - 1 - i) 0).toNat
    -- The loop leaves its counter at the last, partial byte.
    let last := numUsefulBytes - 1
    let whole := (List.range last).foldl (fun index i => index + currByte i <<< (i * 8)) 0
    some (whole + (currByte last &&& (1 <<< residualUsefulBits - 1)) <<< (last * 8))
  else none

def bigEndian (bytes : List Byte) : Nat := bytes.foldl (fun value byte => value * 256 + byte.toNat) 0

theorem hexDigit_roundtrip (byte : Byte) :
    hexDigit2binary (hexDigit (byte.toNat / 16)) <<< 4 ||| hexDigit2binary (hexDigit (byte.toNat % 16)) = byte := by
  revert byte
  decide +kernel

theorem hex2binary_binary2hex (buf : List Byte) :
    hex2binary (binary2hex buf) (2 * buf.length) = buf := by
  unfold binary2hex
  generalize [Char.ofNat 0] = terminator
  induction buf with
  | nil => simp [hex2binary]
  | cons byte rest ih =>
    simp only [List.flatMap_cons, List.cons_append, List.nil_append, List.length_cons,
      Nat.mul_add, Nat.mul_one, hex2binary]
    rw [hexDigit_roundtrip, ih]

theorem hex2binary_digest (digest : Digest) : hex2binary (binary2hex digest.toList) hashLen = digest.toList := by
  have decoded := hex2binary_binary2hex digest.toList
  rwa [Vector.length_toList] at decoded

theorem bigEndian_low (bytes : List Byte) (length : bytes.length = sha1HashSize) :
    ∃ high, bigEndian bytes =
      high * 65536 + (bytes.getD 18 0).toNat * 256 + (bytes.getD 19 0).toNat := by
  have parts := List.take_append_drop 18 bytes
  have short : (bytes.drop 18).length = 2 := by rw [List.length_drop, length]; rfl
  obtain ⟨first, second, tail⟩ := List.length_eq_two.mp short
  have front : (bytes.take 18).length = 18 := by rw [List.length_take, length]; rfl
  rw [tail] at parts
  refine ⟨bigEndian (bytes.take 18), ?_⟩
  have one : bytes.getD 18 0 = first := by rw [← parts]; simp [front]
  have two : bytes.getD 19 0 = second := by rw [← parts]; simp [front]
  rw [one, two]
  conv_lhs => rw [← parts]
  simp only [bigEndian, List.foldl_append, List.foldl_cons, List.foldl_nil]
  omega

/-- The text form loses nothing, and the byte loop is reduction modulo `2 ^ radix`. -/
theorem computeIndex_binary2hex (digest : Digest) {radix : Nat} (bounded : radix < maxRadix) :
    computeIndex (binary2hex digest.toList) radix = some (bigEndian digest.toList % 2 ^ radix) := by
  obtain ⟨high, number⟩ := bigEndian_low digest.toList Vector.length_toList
  have low := (digest.toList.getD 19 0).isLt
  simp only [computeIndex, if_pos bounded, hex2binary_digest, number, Nat.shiftLeft_eq, Nat.one_mul,
    Nat.and_two_pow_sub_one_eq_mod]
  congr 1
  unfold maxRadix at bounded
  -- Ten radices: zero, seven partial bytes, one whole byte, one byte and a bit.
  interval_cases radix <;>
    simp [sha1HashSize, List.range_succ] <;> omega

theorem computeIndex_suffix (digest : Digest) {radix : Nat} (bounded : radix < maxRadix) :
    computeIndex (binary2hex digest.toList) radix = some (bigEndian digest.toList % 2 ^ radix) ∧
      ∀ wider < maxRadix, radix ≤ wider →
        computeIndex (binary2hex digest.toList) radix =
          (computeIndex (binary2hex digest.toList) wider).map (· % 2 ^ radix) := by
  refine ⟨computeIndex_binary2hex digest bounded, fun wider fits narrower => ?_⟩
  rw [computeIndex_binary2hex digest bounded, computeIndex_binary2hex digest fits, Option.map_some,
    Nat.mod_mod_of_dvd _ (Nat.pow_dvd_pow 2 narrower)]

theorem computeIndex_suffix_eight :
    8 < maxRadix ∧ 9 < maxRadix ∧ ∃ digest : Digest,
      computeIndex (binary2hex digest.toList) 8 = some (bigEndian digest.toList % 2 ^ 8) ∧
        computeIndex (binary2hex digest.toList) 8 =
          (computeIndex (binary2hex digest.toList) 9).map (· % 2 ^ 8) := by
  have suffix := @computeIndex_suffix (Vector.replicate sha1HashSize 0xab#8) 8 (by decide)
  exact ⟨by decide, by decide, _, suffix.1, suffix.2 9 (by decide) (by decide)⟩

variable {Name : Type} (shahash : Name → Digest)

def gigaHashName (hashKey : Name) : List Char := binary2hex (shahash hashKey).toList

def hashNumber (name : Name) : Nat := bigEndian (shahash name).toList

theorem computeIndex_gigaHashName (name : Name) {radix : Nat} (bounded : radix < maxRadix) :
    computeIndex (gigaHashName shahash name) radix = some (hashNumber shahash name % 2 ^ radix) :=
  computeIndex_binary2hex (shahash name) bounded

end SkyeFS.Index
