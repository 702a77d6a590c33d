import SkyeFS.Index.Digest
import Mathlib.Logic.Function.Iterate

/-! The compression function of SHA-1, as common/sha.c computes it and as the standard defines it.

`SHA1Guts` reads a block as sixteen native words, puts their bytes in order, extends them
to eighty through four pointers into one array, and makes four times twenty rounds. The
standard (FIPS 180) gives one recurrence for the words and one round that depends on its
number. The array is on the stack and holds anything at first. How the rounds are
unrolled, in which order the machine keeps the bytes of a word and how bytes are copied is
chosen when the file is compiled.
-/

set_option autoImplicit false

namespace SkyeFS.Index.Sha1

abbrev Word := BitVec 32

/-- `ROTL`, which is also the rotation of the standard. -/
def rotl (x : Word) (n : Nat) : Word := x <<< n ||| x >>> (32 - n)

structure Words where
  a : Word
  b : Word
  c : Word
  d : Word
  e : Word
deriving DecidableEq

def Words.add (first second : Words) : Words :=
  ⟨first.a + second.a, first.b + second.b, first.c + second.c, first.d + second.d, first.e + second.e⟩

/-! ### The standard -/

/-- The 32-bit word of the block with this number, most significant byte first. -/
def blockWord (block : List Byte) (t : Nat) : Word :=
  block.getD (4 * t) 0 ++ block.getD (4 * t + 1) 0 ++ block.getD (4 * t + 2) 0 ++ block.getD (4 * t + 3) 0

def schedule (block : List Byte) (t : Nat) : Word :=
  if t < 16 then blockWord block t
  else
    rotl (schedule block (t - 3) ^^^ schedule block (t - 8) ^^^ schedule block (t - 14) ^^^ schedule block (t - 16)) 1

def choice (x y z : Word) : Word := (x &&& y) ^^^ (~~~x &&& z)

def parity (x y z : Word) : Word := x ^^^ y ^^^ z

def majority (x y z : Word) : Word := (x &&& y) ^^^ (x &&& z) ^^^ (y &&& z)

def logical (t : Nat) : Word → Word → Word → Word :=
  if t < 20 then choice else if t < 40 then parity else if t < 60 then majority else parity

def constant (t : Nat) : Word :=
  if t < 20 then 0x5a827999#32 else if t < 40 then 0x6ed9eba1#32 else if t < 60 then 0x8f1bbcdc#32 else 0xca62c1d6#32

/-- The working variables before step `t`. -/
def working (initial : Words) (word : Nat → Word) : Nat → Words
  | 0 => initial
  | t + 1 =>
      let ⟨a, b, c, d, e⟩ := working initial word t
      ⟨rotl a 5 + logical t b c d + e + constant t + word t, a, rotl b 30, c, d⟩

def compress (hash : Words) (block : List Byte) : Words := hash.add (working hash (schedule block) 80)

/-! ### The code -/

/-- `SHA1_UNROLL`; any other value is refused by the compiler. -/
inductive Unroll
  | one
  | two
  | four
  | five
  | ten
  | twenty
deriving DecidableEq

def Unroll.rounds : Unroll → Nat
  | one => 1
  | two => 2
  | four => 4
  | five => 5
  | ten => 10
  | twenty => 20

/-- `WORDS_BIGENDIAN`, or what `RUNTIME_ENDIAN` finds out, and the other two choices. -/
structure Build where
  bigEndianWords : Bool
  unroll : Unroll
  fastCopy : Bool
deriving DecidableEq

def rotr (x : Word) (n : Nat) : Word := x >>> n ||| x <<< (32 - n)

def byteswap (build : Build) (x : Word) : Word :=
  if build.bigEndianWords then x else rotr x 8 &&& 0xff00ff00#32 ||| rotl x 8 &&& 0x00ff00ff#32

def wordAt (build : Build) (b0 b1 b2 b3 : Byte) : Word :=
  if build.bigEndianWords then b0 ++ b1 ++ b2 ++ b3 else b3 ++ b2 ++ b1 ++ b0

def f0To19 (x y z : Word) : Word := z ^^^ (x &&& (y ^^^ z))

def f20To39 (x y z : Word) : Word := x ^^^ y ^^^ z

def f40To59 (x y z : Word) : Word := (x &&& (y ||| z)) ||| (y &&& z)

def f60To79 (x y z : Word) : Word := x ^^^ y ^^^ z

/-- `cbuf[i]`. -/
def nativeWord (build : Build) (cbuf : List Byte) (i : Nat) : Word :=
  wordAt build (cbuf.getD (4 * i) 0) (cbuf.getD (4 * i + 1) 0) (cbuf.getD (4 * i + 2) 0) (cbuf.getD (4 * i + 3) 0)

/-- `buf` and the pointers into it. -/
structure Expansion where
  buf : Vector Word 80
  w : Nat
  w3 : Nat
  w8 : Nat
  w14 : Nat
  w16 : Nat

def loadStep (build : Build) (cbuf : List Byte) (state : Vector Word 80 × Nat) : Vector Word 80 × Nat :=
  (state.1.setIfInBounds state.2 (byteswap build (nativeWord build cbuf state.2)), state.2 + 1)

def expandStep (state : Expansion) : Expansion :=
  let word := state.buf.getD state.w3 0 ^^^ state.buf.getD state.w8 0 ^^^ state.buf.getD state.w14 0 ^^^
    state.buf.getD state.w16 0
  { buf := state.buf.setIfInBounds state.w (rotl word 1)
    w := state.w + 1, w3 := state.w3 + 1, w8 := state.w8 + 1, w14 := state.w14 + 1, w16 := state.w16 + 1 }

/-- `DO_ROUND`, with the pointer `W`. -/
def doRound (f : Word → Word → Word → Word) (k : Word) (buf : Vector Word 80) (state : Words × Nat) : Words × Nat :=
  let ⟨⟨a, b, c, d, e⟩, w⟩ := state
  (⟨rotl a 5 + f b c d + e + buf.getD w 0 + k, a, rotl b 30, c, d⟩, w + 1)

/-- Twenty rounds, so many of them in each turn of a loop. -/
def quarter (build : Build) (f : Word → Word → Word → Word) (k : Word) (buf : Vector Word 80) :
    Words × Nat → Words × Nat :=
  ((doRound f k buf)^[build.unroll.rounds])^[20 / build.unroll.rounds]

/-- `stack` is what the array holds before. -/
def sha1Guts (build : Build) (stack : Vector Word 80) (hash : Words) (cbuf : List Byte) : Words :=
  let loaded := (loadStep build cbuf)^[16] (stack, 0)
  let expanded := expandStep^[64] { buf := loaded.1, w := loaded.2, w3 := 13, w8 := 8, w14 := 2, w16 := 0 }
  let first := quarter build f0To19 0x5a827999#32 expanded.buf (hash, 0)
  let second := quarter build f20To39 0x6ed9eba1#32 expanded.buf first
  let third := quarter build f40To59 0x8f1bbcdc#32 expanded.buf second
  let last := quarter build f60To79 0xca62c1d6#32 expanded.buf third
  hash.add last.1

/-! ### The code computes the standard -/

theorem f0To19_eq : f0To19 = choice := by
  funext x y z
  ext i bounded
  simp only [f0To19, choice, BitVec.getElem_xor, BitVec.getElem_and, BitVec.getElem_not]
  cases x[i] <;> cases y[i] <;> cases z[i] <;> rfl

theorem f20To39_eq : f20To39 = parity := rfl

theorem f60To79_eq : f60To79 = parity := rfl

theorem f40To59_eq : f40To59 = majority := by
  funext x y z
  ext i bounded
  simp only [f40To59, majority, BitVec.getElem_xor, BitVec.getElem_and, BitVec.getElem_or]
  cases x[i] <;> cases y[i] <;> cases z[i] <;> rfl

theorem byteswap_wordAt (build : Build) (b0 b1 b2 b3 : Byte) :
    byteswap build (wordAt build b0 b1 b2 b3) = b0 ++ b1 ++ b2 ++ b3 := by
  unfold byteswap wordAt
  by_cases big : build.bigEndianWords
  · rw [if_pos big, if_pos big]
  rw [if_neg big, if_neg big]
  apply BitVec.eq_of_getLsbD_eq
  intro i bounded
  simp only [rotr, rotl, BitVec.getLsbD_or, BitVec.getLsbD_and, BitVec.getLsbD_shiftLeft,
    BitVec.getLsbD_ushiftRight, BitVec.getLsbD_append]
  -- A mask keeps or drops each bit on its own.
  interval_cases i <;> simp

def Scheduled (block : List Byte) (buf : Vector Word 80) (filled : Nat) : Prop :=
  ∀ t < filled, buf.getD t 0 = schedule block t

theorem getD_setIfInBounds (buf : Vector Word 80) (i t : Nat) (word : Word) (bounded : i < 80) :
    (buf.setIfInBounds i word).getD t 0 = if t = i then word else buf.getD t 0 := by
  simp only [Vector.getD, Vector.toArray_setIfInBounds, Array.getD_eq_getD_getElem?, Array.getElem?_setIfInBounds]
  by_cases same : t = i
  · subst same
    simp [bounded]
  · have other : i ≠ t := fun equal => same equal.symm
    simp [same, other]

theorem Scheduled.push {block : List Byte} {buf : Vector Word 80} {filled : Nat} {word : Word}
    (scheduled : Scheduled block buf filled) (bounded : filled < 80) (next : word = schedule block filled) :
    Scheduled block (buf.setIfInBounds filled word) (filled + 1) := by
  intro t below
  rw [getD_setIfInBounds buf filled t word bounded]
  by_cases last : t = filled
  · rw [if_pos last, last, next]
  · rw [if_neg last]
    apply scheduled
    omega

theorem load_scheduled (build : Build) (cbuf : List Byte) (stack : Vector Word 80) (n : Nat) (few : n ≤ 16) :
    ((loadStep build cbuf)^[n] (stack, 0)).2 = n ∧ Scheduled cbuf ((loadStep build cbuf)^[n] (stack, 0)).1 n := by
  induction n with
  | zero => exact ⟨rfl, fun t below => absurd below t.not_lt_zero⟩
  | succ n ih =>
    obtain ⟨pointer, scheduled⟩ := ih (by omega)
    rw [Function.iterate_succ_apply']
    generalize (loadStep build cbuf)^[n] (stack, 0) = state at pointer scheduled ⊢
    subst pointer
    apply And.intro rfl
    apply scheduled.push (by omega)
    rw [schedule, if_pos (by omega)]
    exact byteswap_wordAt build _ _ _ _

theorem expand_scheduled {block : List Byte} {loaded : Vector Word 80} (scheduled : Scheduled block loaded 16)
    (n : Nat) (few : n ≤ 64) :
    ∃ buf, expandStep^[n] ⟨loaded, 16, 13, 8, 2, 0⟩ = ⟨buf, 16 + n, 13 + n, 8 + n, 2 + n, n⟩ ∧
      Scheduled block buf (16 + n) := by
  -- The pointers keep their distances, and what they read has been written.
  induction n with
  | zero => exact ⟨loaded, rfl, scheduled⟩
  | succ n ih =>
    obtain ⟨buf, reached, filled⟩ := ih (by omega)
    rw [Function.iterate_succ_apply', reached]
    refine ⟨_, rfl, filled.push (by omega) ?_⟩
    rw [filled (13 + n) (by omega), filled (8 + n) (by omega), filled (2 + n) (by omega), filled n (by omega)]
    conv_rhs => rw [schedule, if_neg (by omega)]
    have three : 16 + n - 3 = 13 + n := by omega
    have eight : 16 + n - 8 = 8 + n := by omega
    have fourteen : 16 + n - 14 = 2 + n := by omega
    have sixteen : 16 + n - 16 = n := by omega
    rw [three, eight, fourteen, sixteen]

theorem doRound_working {block : List Byte} {buf : Vector Word 80} (scheduled : Scheduled block buf 80)
    {f : Word → Word → Word → Word} {k : Word} (hash : Words) (first n : Nat) (bounded : first + n ≤ 80)
    (kind : ∀ t, first ≤ t → t < first + n → logical t = f ∧ constant t = k) :
    (doRound f k buf)^[n] (working hash (schedule block) first, first) =
      (working hash (schedule block) (first + n), first + n) := by
  induction n with
  | zero => rfl
  | succ n ih =>
    have rounds := ih (by omega) (fun t low high => kind t low (by omega))
    obtain ⟨function, added⟩ := kind (first + n) (by omega) (by omega)
    rw [Function.iterate_succ_apply', rounds, ← Nat.add_assoc, working, function, added, doRound,
      scheduled (first + n) (by omega)]
    -- The code adds the word before the constant.
    simp only [BitVec.add_assoc, BitVec.add_comm k]

theorem quarter_eq (build : Build) (f : Word → Word → Word → Word) (k : Word) (buf : Vector Word 80) :
    quarter build f k buf = (doRound f k buf)^[20] := by
  -- Unrolling does not matter, because every choice divides twenty.
  have whole : build.unroll.rounds * (20 / build.unroll.rounds) = 20 := by
    cases build.unroll <;> rfl
  rw [quarter, ← Function.iterate_mul, whole]

theorem sha1Guts_eq (build : Build) (stack : Vector Word 80) (hash : Words) (cbuf : List Byte) :
    sha1Guts build stack hash cbuf = compress hash cbuf := by
  obtain ⟨pointer, loaded⟩ := load_scheduled build cbuf stack 16 le_rfl
  obtain ⟨buf, expanded, scheduled⟩ := expand_scheduled loaded 64 le_rfl
  -- In each quarter the function and the constant do not depend on the step.
  have first := doRound_working (f := f0To19) (k := 0x5a827999#32) scheduled hash 0 20 (by omega)
    fun t low high => by
      simp [logical, constant, f0To19_eq, show t < 20 by omega]
  have second := doRound_working (f := f20To39) (k := 0x6ed9eba1#32) scheduled hash 20 20 (by omega)
    fun t low high => by
      simp [logical, constant, f20To39_eq, show ¬ t < 20 by omega, show t < 40 by omega]
  have third := doRound_working (f := f40To59) (k := 0x8f1bbcdc#32) scheduled hash 40 20 (by omega)
    fun t low high => by
      simp [logical, constant, f40To59_eq, show ¬ t < 20 by omega, show ¬ t < 40 by omega, show t < 60 by omega]
  have last := doRound_working (f := f60To79) (k := 0xca62c1d6#32) scheduled hash 60 20 (by omega)
    fun t low high => by
      simp [logical, constant, f60To79_eq, show ¬ t < 20 by omega, show ¬ t < 40 by omega, show ¬ t < 60 by omega]
  have start : (hash, 0) = (working hash (schedule cbuf) 0, 0) := rfl
  simp only [sha1Guts, pointer, expanded, quarter_eq]
  rw [start, first, second, third, last]
  rfl

end SkyeFS.Index.Sha1
