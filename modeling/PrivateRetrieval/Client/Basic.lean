/-
The state of a client session.

A client holds two tables of hints.  A primary hint serves a query; afterwards
its slot is given a backup hint of the queried chunk, or stays empty.  Backup
hints come in one group for each chunk and are taken in order, each once.

* **`Query`** — a selected index, its chunk, and the slot of the hint that
  passes through it;
* **`Tables`** — the slots, where `none` is a retired or taken one;
* **`Client`** — tables, cache, counters, at most one pending query, and the
  source of randomness.
-/
import PrivateRetrieval.Client.Cache
import PrivateRetrieval.Hint
import PrivateRetrieval.Outcome
import PrivateRetrieval.Params

namespace PrivateRetrieval

/-- A query from the selection of its hint until its answer. -/
structure Query where
  index : Nat
  chunk : Nat
  /-- Position of the selected primary hint. -/
  slot : Nat
deriving DecidableEq

/-- A place for a hint, empty once the hint has been retired or taken. -/
abbrev Slot (K : Type) := Option (Hint K)

/-- The hints of a session. -/
structure Tables (K : Type) where
  primary : List (Slot K) := []
  /-- For every chunk the hints whose parity lacks that chunk. -/
  backups : List (List (Slot K)) := []
deriving DecidableEq

namespace Tables

variable {K : Type} (t : Tables K)

/-- The live hint at a primary position. -/
def hint? (slot : Nat) : Option (Hint K) := t.primary[slot]?.join

/-- The hint at a position of a backup group, unless it has been taken. -/
def backup? (group position : Nat) : Option (Hint K) :=
  (t.backups[group]?.bind (·[position]?)).join

/-- Empties a primary slot, so that its hint serves no other query. -/
def retire (slot : Nat) : Tables K := { t with primary := t.primary.set slot none }

/-- Puts a hint into a primary slot, in place of what was there. -/
def install (slot : Nat) (hint : Hint K) : Tables K :=
  { t with primary := t.primary.set slot (some hint) }

/-- Empties a place of a backup group. -/
def takeBackup (group position : Nat) : Tables K :=
  { t with backups := t.backups.modify group (·.set position none) }

/-- Number of primary slots that hold a hint. -/
def liveCount : Nat := t.primary.countP Option.isSome

end Tables

/-- A session: its hints, what it has retrieved and what it waits for. -/
structure Client (σ K : Type) where
  params : Params
  source : σ
  tables : Tables K := {}
  cache : Cache := {}
  /-- For every chunk the number of backup hints that have been used. -/
  consumed : List Nat := List.replicate params.chunkCount 0
  pending : Option Query := none
deriving DecidableEq

namespace Client

variable {σ K α : Type}

/-- An operation of a client. -/
abbrev Act (σ K α : Type) : Type := Action Error (Client σ K) α

/-- The word of an index that was already retrieved. -/
def cached (client : Client σ K) (index : Nat) : Option UInt64 := client.cache.get? index

/-- Number of backup hints of a chunk that have not been used. -/
def remainingBackups (client : Client σ K) (chunk : Nat) : Nat :=
  match client.consumed[chunk]? with
  | some used => client.params.backupsPerChunk - used
  | none => 0

/-- Number of primary hints that can still serve a query. -/
def liveCount (client : Client σ K) : Nat := client.tables.liveCount

end Client

end PrivateRetrieval
