/-
The server: a database, its padded chunks and the answers to punctured queries.

A query is an offset for every chunk but one, and does not say which.  The
server answers with one parity for each chunk that may have been left out:

* **`Server.ofWords`**, **`Server.setup`** — a server for given or random words;
* **`Server.chunks`** — the whole database, chunk by chunk, zeros past its end;
* **`Server.process`** — the parities, each from the one before: when the
  puncture moves on by a chunk, one offset applies to the chunk before;
* **`Server.respond`** — the same on bytes.
-/
import PrivateRetrieval.Hint
import PrivateRetrieval.Outcome
import PrivateRetrieval.Params
import PrivateRetrieval.Random.Keystream
import PrivateRetrieval.Wire.Words

namespace PrivateRetrieval

/-- A database and the parameters that follow from its size. -/
structure Server where
  words : Array UInt64
  params : Params
  derived : Params.ofSize words.size = .ok params

namespace Server

/-- The server of a database, unless there are no words in it. -/
def ofWords (words : Array UInt64) : Except Error Server :=
  match derived : Params.ofSize words.size with
  | .ok params => .ok { words, params, derived }
  | .error cause => .error cause

/-- A server of `size` words from the keystream of a seed. -/
def setup (size : Nat) (seed : Bytes) : Except Error Server :=
  ofWords (drawWords size (Keystream.ofSeed seed)).1

variable (s : Server)

/-- The word at an index of the padded database. -/
def wordAt (index : Nat) : UInt64 := s.words.getD index 0

/-- The words of a chunk, with zeros past the end of the database. -/
def paddedChunk (chunk : Nat) : Chunk :=
  (List.range s.params.chunkSize).map fun offset => s.wordAt (chunk * s.params.chunkSize + offset)

/-- A chunk, if there is one of this number. -/
def chunk (chunk : Nat) : Except Error Chunk :=
  if s.params.chunkCount ≤ chunk then .error (.indexOutOfRange chunk s.params.chunkCount)
  else .ok (s.paddedChunk chunk)

/-- All chunks, in order. -/
def chunks : List Chunk :=
  (List.range s.params.chunkCount).map s.paddedChunk

/-- A chunk as it travels. -/
def chunkBytes (chunk : Nat) : Except Error Bytes :=
  (s.chunk chunk).map Words.encode

/-- A word in the clear, which hides nothing from the server. -/
def readDirect (index : Nat) : Except Error UInt64 :=
  if s.params.dbSize ≤ index then .error (.indexOutOfRange index s.params.dbSize)
  else .ok (s.wordAt index)

/-- The parity with the first chunk left out, where the offsets apply to the
chunks from `chunk` on. -/
def parityFrom (chunk : Nat) : (offsets : List Nat) → UInt64
  | [] => 0
  | offset :: rest =>
    s.wordAt (chunk * s.params.chunkSize + offset) ^^^ parityFrom (chunk + 1) rest

/-- The parities with `chunk` or a later chunk left out, given the one for
`chunk` and the offsets that then apply to the chunks after it. -/
def slide (chunk : Nat) (parity : UInt64) : (offsets : List Nat) → List UInt64
  | [] => [parity]
  | offset :: rest =>
    parity :: slide (chunk + 1)
      (parity ^^^ s.wordAt ((chunk + 1) * s.params.chunkSize + offset)
        ^^^ s.wordAt (chunk * s.params.chunkSize + offset)) rest

/-- The parities for every chunk that may have been left out. -/
def process (offsets : List Nat) : Reply (List UInt64) :=
  if offsets.length ≠ s.params.puncturedLength then
    .ofExcept (.error (.offsetCount s.params.puncturedLength offsets.length))
  else
    match offsets.findIdx? (s.params.chunkSize ≤ ·) with
    | some position =>
      .ofExcept (.error
        (.offsetOutOfRange position (offsets.getD position 0) s.params.chunkSize))
    | none =>
      { result := .ok (s.slide 0 (s.parityFrom 1 offsets) offsets)
        events := [.processed s.params.chunkCount] }

/-- The answer to a query that came as bytes. -/
def respond (query : Bytes) : Reply Bytes := do
  let words ← Reply.ofExcept (Words.decode query)
  let parities ← s.process (words.map UInt64.toNat)
  return Words.encode parities

end Server

end PrivateRetrieval
