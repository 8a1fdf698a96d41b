/-
Chunking parameters and hint budget.

A database of `N` words is cut into chunks of `⌊√N⌋` consecutive words; the
last one is padded with zeros.  `Params.ofSize N` derives the chunking and the
number of hints from `N` alone, so a server and a client that share `N` share
all of it:

* **`Params.ofSize`** — budget `Q = ⌈√N · ln N⌉`, primary hints `4 Q`, backup
  hints per chunk `4 ⌈ln N⌉`, each at least one before the factor;
* **`Params.withCapacities`** — the same chunking under a given budget.
-/
import PrivateRetrieval.Arithmetic.Rounded
import PrivateRetrieval.Error

namespace PrivateRetrieval

/-- Chunking and hint budget of one database size. -/
structure Params where
  dbSize : Nat
  chunkSize : Nat
  /-- Number of chunks, the padded last one included. -/
  chunkCount : Nat
  /-- Number of queries that the hints are meant to serve. -/
  queryBudget : Nat
  primaryCount : Nat
  /-- Number of backup hints held for each chunk. -/
  backupsPerChunk : Nat
deriving DecidableEq

namespace Params

/-- Hints kept for every query of the budget: an index is then missed with
probability about `N ^ -4`. -/
def oversampling : Nat := 4

/-- Chunks of `⌊√N⌋` words that cover the database, and the given capacities. -/
def withCapacities (dbSize queryBudget primaryCount backupsPerChunk : Nat) :
    Except Error Params :=
  if dbSize = 0 then .error .emptyDatabase
  else if primaryCount = 0 ∨ backupsPerChunk = 0 then .error .noHints
  else
    let chunkSize := sqrtFloor dbSize
    .ok {
      dbSize, chunkSize, queryBudget, primaryCount, backupsPerChunk
      chunkCount := (dbSize + (chunkSize - 1)) / chunkSize }

/-- Chunking and capacities that follow from the number of words alone. -/
def ofSize (dbSize : Nat) : Except Error Params :=
  let budget := max 1 (Rounded.ceilRootLog dbSize)
  withCapacities dbSize budget (oversampling * budget)
    (oversampling * max 1 (Rounded.ceilLog dbSize))

variable (p : Params)

/-- The chunk that an index lies in. -/
def chunkOf (index : Nat) : Nat := index / p.chunkSize

/-- The place of an index in its chunk. -/
def offsetInChunk (index : Nat) : Nat := index % p.chunkSize

/-- Number of words with the padding of the last chunk. -/
def paddedSize : Nat := p.chunkSize * p.chunkCount

/-- Number of backup hints for all chunks together. This is a product of natural numbers,
where a counter of 64 bits would overflow past `2 ^ 64`. Only capacities that were chosen by
hand can get there, and no table could be that long (`backupCount_lt_of_ofSize`). Such
parameters are outside of this layer: where steps are shown to fit into a word, they are
excluded by the hypothesis `counted`. -/
def backupCount : Nat := p.backupsPerChunk * p.chunkCount

/-- Number of offsets in a query: one for every chunk but the punctured one. -/
def puncturedLength : Nat := p.chunkCount - 1

end Params

end PrivateRetrieval
