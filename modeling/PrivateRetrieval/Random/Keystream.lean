/-
The ChaCha8 keystream as a source of random words.

A `Keystream` is a 256-bit key and the number of words drawn so far.  Block `n`
of the stream is the ChaCha permutation with four double rounds on the constant
row, the key and the counter `n`, added to its input; it holds eight 64-bit
words, low halves first.

The permutation works on rows of four words: a round mixes the rows place by
place, and the diagonal round is the same round on rows shifted against each
other.
-/
import PrivateRetrieval.Random.Source
import PrivateRetrieval.Wire.Words

namespace PrivateRetrieval

namespace ChaCha

/-- Four words, one of each column. -/
structure Row where
  a : UInt32
  b : UInt32
  c : UInt32
  d : UInt32

namespace Row

/-- The same operation on every place of two rows. -/
@[inline] def zip (f : UInt32 → UInt32 → UInt32) (r s : Row) : Row :=
  ⟨f r.a s.a, f r.b s.b, f r.c s.c, f r.d s.d⟩

/-- The word with its bits moved `n` places to the left, around the end. -/
@[inline] def rotateBits (n : UInt32) (x : UInt32) : UInt32 :=
  (x <<< n) ||| (x >>> (32 - n))

/-- The sum, word by word. -/
@[inline] def add (r s : Row) : Row := zip (· + ·) r s

/-- The exclusive or, word by word, then rotated left by `n` bits. -/
@[inline] def mix (n : UInt32) (r s : Row) : Row := zip (fun x y => rotateBits n (x ^^^ y)) r s

/-- The row moved one place to the left, around the end. -/
@[inline] def shift1 (r : Row) : Row := ⟨r.b, r.c, r.d, r.a⟩

/-- The row moved two places, around the end. -/
@[inline] def shift2 (r : Row) : Row := ⟨r.c, r.d, r.a, r.b⟩

/-- The row moved three places to the left, around the end. -/
@[inline] def shift3 (r : Row) : Row := ⟨r.d, r.a, r.b, r.c⟩

end Row

/-- The sixteen words that are permuted, in four rows. -/
structure Block where
  constant : Row
  keyLow : Row
  keyHigh : Row
  counter : Row

namespace Block

/-- A round on the columns, all four at once. -/
@[inline] def columnRound (s : Block) : Block :=
  let a := s.constant.add s.keyLow
  let d := s.counter.mix 16 a
  let c := s.keyHigh.add d
  let b := s.keyLow.mix 12 c
  let a := a.add b
  let d := d.mix 8 a
  let c := c.add d
  let b := b.mix 7 c
  ⟨a, b, c, d⟩

/-- A round on the columns, then one on the diagonals. -/
@[inline] def doubleRound (s : Block) : Block :=
  let s := s.columnRound
  let s := columnRound ⟨s.constant, s.keyLow.shift1, s.keyHigh.shift2, s.counter.shift3⟩
  ⟨s.constant, s.keyLow.shift3, s.keyHigh.shift2, s.counter.shift1⟩

/-- The sum, row by row. -/
def add (s t : Block) : Block :=
  ⟨s.constant.add t.constant, s.keyLow.add t.keyLow, s.keyHigh.add t.keyHigh,
    s.counter.add t.counter⟩

/-- Two words as one, the low half first. -/
def join (low high : UInt32) : UInt64 :=
  low.toUInt64 ||| (high.toUInt64 <<< 32)

/-- Word `i` of the eight 64-bit words of a block. -/
def word (s : Block) (i : Nat) : UInt64 :=
  let row := match i / 2 with
    | 0 => s.constant
    | 1 => s.keyLow
    | 2 => s.keyHigh
    | _ => s.counter
  if i % 2 = 0 then join row.a row.b else join row.c row.d

end Block

/-- The words of `expand 32-byte k`. -/
def constantRow : Row := ⟨0x61707865, 0x3320646e, 0x79622d32, 0x6b206574⟩

end ChaCha

/-- A key, and how many words of its stream have been drawn. -/
structure Keystream where
  key : Vector UInt32 8
  position : Nat
deriving DecidableEq

namespace Keystream

open ChaCha

/-- Number of 64-bit words in a block. -/
def blockWords : Nat := 8

/-- Block `n` of the stream of a key. -/
def block (key : Vector UInt32 8) (n : UInt64) : Block :=
  let start : Block := {
    constant := constantRow
    keyLow := ⟨key[0], key[1], key[2], key[3]⟩
    keyHigh := ⟨key[4], key[5], key[6], key[7]⟩
    counter := ⟨n.toUInt32, (n >>> 32).toUInt32, 0, 0⟩ }
  start.doubleRound.doubleRound.doubleRound.doubleRound.add start

/-- The word at a position of the stream of a key. -/
def wordAt (key : Vector UInt32 8) (position : Nat) : UInt64 :=
  (block key (UInt64.ofNat (position / blockWords))).word (position % blockWords)

/-- The stream of a 32-byte seed, from its start. -/
def ofSeed (seed : Bytes) : Keystream where
  key := Vector.ofFn fun i =>
    UInt32.ofNat (LittleEndian.decode ((seed.drop (4 * i)).take 4))
  position := 0

/-- The next word is the one at the position. -/
instance : RandomSource Keystream where
  nextWord stream :=
    (wordAt stream.key stream.position, { stream with position := stream.position + 1 })

/-- Number of words in a seed. -/
def seedWords : Nat := 4

/-- A fresh seed for another stream: the next 32 bytes of this one. -/
def drawSeed (stream : Keystream) : Bytes × Keystream :=
  let drawn := drawWords seedWords stream
  (drawn.1.toList.flatMap Words.encodeWord, drawn.2)

end Keystream

end PrivateRetrieval
