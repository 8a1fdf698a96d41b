/-
Hints: one pseudorandom word position in every chunk, and a parity.

A key picks one offset in each chunk, its *trace*.  A hint adds the parity of
words on that trace and may be *programmed*: pinned to a known index, it passes
through that index in its chunk and follows the key in every other.

* **`offsetAt`**, **`elementAt`** — the position in a chunk, counted from the
  start of the chunk or of the database;
* **`trace`** — the offsets of all chunks;
* **`offset?`**, **`element?`**, **`trace?`** — the same, undefined where the
  chunks have no word to choose from.
-/
import PrivateRetrieval.Prf.Basic

namespace PrivateRetrieval

/-- The words of a chunk, in order. -/
abbrev Chunk := List UInt64

/-- A trace and the parity of the words met on it. -/
structure Hint (K : Type) where
  /-- Stands for the trace. -/
  key : K
  /-- The exclusive or of the words taken in so far. -/
  parity : UInt64 := 0
  /-- The index to which the trace is pinned. -/
  point : Option Nat := none
deriving DecidableEq

namespace Hint

variable {K : Type}

/-- Takes a word into the parity. -/
def xorParity (hint : Hint K) (word : UInt64) : Hint K :=
  { hint with parity := hint.parity ^^^ word }

/-- Pins the trace to `index`, in place of any earlier point. -/
def program (hint : Hint K) (index : Nat) : Hint K :=
  { hint with point := some index }

/-- Whether the trace is pinned to an index. -/
def isProgrammed (hint : Hint K) : Bool := hint.point.isSome

variable [Prf K]

/-- The offset that a key picks in a chunk. -/
def keyOffset (key : K) (chunk chunkSize : Nat) : Nat :=
  (Prf.eval key chunk).toNat % chunkSize

/-- The offset of the trace in a chunk: that of the point if it lies there, else
that of the key. -/
def offsetAt (hint : Hint K) (chunk chunkSize : Nat) : Nat :=
  match hint.point with
  | some point =>
    if point / chunkSize = chunk then point % chunkSize else keyOffset hint.key chunk chunkSize
  | none => keyOffset hint.key chunk chunkSize

/-- The index at which the trace passes through a chunk. -/
def elementAt (hint : Hint K) (chunk chunkSize : Nat) : Nat :=
  match hint.point with
  | some point =>
    if point / chunkSize = chunk then point
    else hint.offsetAt chunk chunkSize + chunk * chunkSize
  | none => hint.offsetAt chunk chunkSize + chunk * chunkSize

/-- The offsets of the trace in the first `chunkCount` chunks, in order. -/
def trace (hint : Hint K) (chunkCount chunkSize : Nat) : List Nat :=
  (List.range chunkCount).map (hint.offsetAt · chunkSize)

/-- Takes the word at the trace's offset in a chunk into the parity. -/
def absorb (hint : Hint K) (chunk : Nat) (words : Chunk) (chunkSize : Nat) : Hint K :=
  hint.xorParity (words.getD (hint.offsetAt chunk chunkSize) 0)

/-- `offsetAt`, undefined in chunks without words. -/
def offset? (hint : Hint K) (chunk chunkSize : Nat) : Option Nat :=
  if chunkSize = 0 then none else some (hint.offsetAt chunk chunkSize)

/-- `elementAt`, undefined in chunks without words. -/
def element? (hint : Hint K) (chunk chunkSize : Nat) : Option Nat :=
  if chunkSize = 0 then none else some (hint.elementAt chunk chunkSize)

/-- `trace`, undefined if there are chunks and they have no words. -/
def trace? (hint : Hint K) (chunkCount chunkSize : Nat) : Option (List Nat) :=
  if chunkSize = 0 ∧ chunkCount ≠ 0 then none else some (hint.trace chunkCount chunkSize)

end Hint

end PrivateRetrieval
