/-
TurboSHAKE128 of a key and a chunk.

The message is a 16-byte key and the chunk in eight little-endian bytes, and the
answer is the first eight bytes of output.  Both fit into one block of 168
bytes, so one run of the permutation on the padded message is all there is: the
message takes three lanes, the domain byte `1F` follows it, and the last bit of
the block is set.

The permutation is Keccak-p[1600] with 12 rounds, on five planes of five 64-bit
lanes.
-/
import PrivateRetrieval.Prf.Basic
import PrivateRetrieval.Random.Source
import PrivateRetrieval.Wire.Words

namespace PrivateRetrieval

namespace Keccak

/-- The lane with its bits moved `n` places to the left, around the end. -/
@[inline] def rotate (n : UInt64) (x : UInt64) : UInt64 :=
  (x <<< n) ||| (x >>> (64 - n))

/-- Five lanes, one of each column. -/
structure Plane where
  a : UInt64
  b : UInt64
  c : UInt64
  d : UInt64
  e : UInt64

namespace Plane

/-- The exclusive or, lane by lane. -/
@[inline] def xor (p q : Plane) : Plane :=
  ⟨p.a ^^^ q.a, p.b ^^^ q.b, p.c ^^^ q.c, p.d ^^^ q.d, p.e ^^^ q.e⟩

/-- For every lane the parity of its left neighbour and of its right neighbour
rotated by one bit. -/
@[inline] def spread (p : Plane) : Plane :=
  ⟨p.e ^^^ rotate 1 p.b, p.a ^^^ rotate 1 p.c, p.b ^^^ rotate 1 p.d, p.c ^^^ rotate 1 p.e,
    p.d ^^^ rotate 1 p.a⟩

/-- Every lane is flipped where the next is zero and the one after it is one. -/
@[inline] def chi (p : Plane) : Plane :=
  ⟨p.a ^^^ (~~~p.b &&& p.c), p.b ^^^ (~~~p.c &&& p.d), p.c ^^^ (~~~p.d &&& p.e),
    p.d ^^^ (~~~p.e &&& p.a), p.e ^^^ (~~~p.a &&& p.b)⟩

end Plane

/-- The 1600 bits that are permuted, in five planes. -/
structure State where
  p : Plane
  q : Plane
  r : Plane
  s : Plane
  t : Plane

namespace State

/-- Adds to every lane the parities of two neighbouring columns. -/
@[inline] def theta (x : State) : State :=
  let column := (((x.p.xor x.q).xor x.r).xor x.s).xor x.t
  let add := column.spread
  ⟨x.p.xor add, x.q.xor add, x.r.xor add, x.s.xor add, x.t.xor add⟩

/-- Rotates every lane by its own amount and moves it to its new place. -/
@[inline] def rhoPi (x : State) : State where
  p := ⟨x.p.a, rotate 44 x.q.b, rotate 43 x.r.c, rotate 21 x.s.d, rotate 14 x.t.e⟩
  q := ⟨rotate 28 x.p.d, rotate 20 x.q.e, rotate 3 x.r.a, rotate 45 x.s.b, rotate 61 x.t.c⟩
  r := ⟨rotate 1 x.p.b, rotate 6 x.q.c, rotate 25 x.r.d, rotate 8 x.s.e, rotate 18 x.t.a⟩
  s := ⟨rotate 27 x.p.e, rotate 36 x.q.a, rotate 10 x.r.b, rotate 15 x.s.c, rotate 56 x.t.d⟩
  t := ⟨rotate 62 x.p.c, rotate 55 x.q.d, rotate 39 x.r.e, rotate 41 x.s.a, rotate 2 x.t.b⟩

/-- The nonlinear step on every plane, and the round constant on the first lane. -/
@[inline] def chiIota (x : State) (constant : UInt64) : State :=
  let first := x.p.chi
  ⟨{ first with a := first.a ^^^ constant }, x.q.chi, x.r.chi, x.s.chi, x.t.chi⟩

/-- One round of the permutation. -/
def round (x : State) (constant : UInt64) : State :=
  x.theta.rhoPi.chiIota constant

end State

/-- The constants of the last twelve rounds. -/
def roundConstants : List UInt64 :=
  [0x000000008000808b, 0x800000000000008b, 0x8000000000008089, 0x8000000000008003,
    0x8000000000008002, 0x8000000000000080, 0x000000000000800a, 0x800000008000000a,
    0x8000000080008081, 0x8000000000008080, 0x0000000080000001, 0x8000000080008008]

/-- All twelve rounds. -/
def permute (x : State) : State :=
  roundConstants.foldl State.round x

end Keccak

namespace TurboShake

open Keccak

/-- The sixteen bytes of a key as two words. -/
structure Key where
  low : UInt64
  high : UInt64
deriving DecidableEq

namespace Key

/-- The sixteen bytes of a key, as they stand in front of the message. -/
def toBytes (key : Key) : Bytes :=
  Words.encodeWord key.low ++ Words.encodeWord key.high

/-- The key of sixteen bytes. -/
def ofBytes (bytes : Bytes) : Key where
  low := UInt64.ofNat (LittleEndian.decode (bytes.take wordWidth))
  high := UInt64.ofNat (LittleEndian.decode (bytes.drop wordWidth))

end Key

/-- The padded block of a key and a chunk. -/
def absorbed (key : Key) (chunk : UInt64) : State where
  p := ⟨key.low, key.high, chunk, 0x1f, 0⟩
  q := ⟨0, 0, 0, 0, 0⟩
  r := ⟨0, 0, 0, 0, 0⟩
  s := ⟨0, 0, 0, 0, 0⟩
  t := ⟨(0x80 : UInt64) <<< 56, 0, 0, 0, 0⟩

/-- The answer is the first lane after the permutation. -/
instance : Prf Key where
  eval key chunk := (permute (absorbed key (UInt64.ofNat chunk))).p.a

/-- A key is the next two words of the source. -/
instance {σ : Type} [RandomSource σ] : KeySource σ Key where
  drawKey source :=
    let low := nextWord source
    let high := nextWord low.2
    (⟨low.1, high.1⟩, high.2)

end TurboShake

end PrivateRetrieval
