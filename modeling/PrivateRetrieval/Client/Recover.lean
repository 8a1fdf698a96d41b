/-
From an answer to a word.

The parity at the queried chunk lacks, of the words on the hint's trace, just
the one that was asked for; together with the hint's own parity it leaves that
word.  The used hint is then replaced by the next backup hint of the same chunk,
programmed at the index, with the word as the missing term of its parity.

* **`Client.recover`**, **`Client.processResponse`** — the word, from parities
  or from bytes;
* **`Client.discard`** — gives up the pending query and its hint;
* **`Client.retrieve`** — cache, query, transport and recovery in one.
-/
import PrivateRetrieval.Client.Query

namespace PrivateRetrieval.Client

variable {σ K : Type}

/-- The next backup hint of a chunk, and its position. -/
def nextBackup (client : Client σ K) (chunk : Nat) : Option (Hint K × Nat) :=
  let used := client.consumed.getD chunk 0
  if used < client.params.backupsPerChunk then
    (client.tables.backup? chunk used).map (·, used)
  else none

/-- Replaces the hint that served a query by a backup hint of its chunk, or
retires it if none is left. -/
def refresh (query : Query) (answer : UInt64) : Act σ K Unit := fun client =>
  match client.nextBackup query.chunk with
  | some (hint, position) =>
    let fresh := (hint.program query.index).xorParity answer
    { outcome := .ok ()
      state := { client with
        tables := (client.tables.takeBackup query.chunk position).install query.slot fresh
        consumed := client.consumed.modify query.chunk (· + 1) }
      events := [] }
  | none =>
    { outcome := .error (.backupsExhausted query.chunk query.index)
      state := { client with tables := client.tables.retire query.slot }
      events := [.exhausted query.chunk query.index] }

/-- Keeps the word of the pending query, which is pending no more. -/
def settle (query : Query) (answer : UInt64) : Act σ K Unit :=
  Action.update fun client =>
    { client with pending := none, cache := client.cache.insert query.index answer }

/-- The word that the parities of a pending query leave. -/
def answer (client : Client σ K) (query : Query) (parities : List UInt64) :
    Outcome Error UInt64 :=
  (client.pendingHint query).bind fun hint =>
    if parities.length ≠ client.params.chunkCount then
      .error (.parityCount client.params.chunkCount parities.length)
    else
      match parities[query.chunk]? with
      | some parity => .ok (parity ^^^ hint.parity)
      | none => .fault .outOfBounds

/-- Recovers the word of the pending query, keeps it and refreshes the hint. If
no backup hint is left the word is kept all the same. -/
def recover (query : Query) (parities : List UInt64) : Act σ K UInt64 := do
  let word ← Action.read (answer · query parities)
  settle query word
  refresh query word
  return word

/-- The pending query, or why there is none to answer. -/
def pendingQuery (client : Client σ K) : Outcome Error Query :=
  match client.pending with
  | some query => .ok query
  | none => .error .noPendingQuery

/-- Takes an answer that came as bytes, which are decoded only if a query is pending. -/
def processResponse (response : Bytes) : Act σ K UInt64 := do
  let query ← Action.read pendingQuery
  let parities ← Action.done (.ofExcept (Words.decode response))
  recover query parities

/-- Gives up the pending query. The server may have seen the trace of its hint,
so the hint is retired. -/
def discard : Act σ K (Option Query) := fun client =>
  match client.pending with
  | none => ⟨.ok none, client, []⟩
  | some query =>
    { outcome := .ok (some query)
      state := { client with pending := none, tables := client.tables.retire query.slot }
      events := [.discarded query.index] }

/-- Gives up a query that is still pending when `action` ends with an error. -/
def discardOnError {α : Type} (action : Act σ K α) : Act σ K α := do
  match ← action.attempt with
  | .ok value => return value
  | .error cause =>
    let _ ← discard
    Action.done (.error cause)

/-- The word of an index: from the cache, or through `respond`, which carries a
query to the server and its answer back. -/
def retrieve [Prf K] (index : Nat) (respond : Bytes → Reply Bytes) : Act σ K UInt64 := do
  match ← Action.read fun client => .ok (client.cached index) with
  | some word => return word
  | none =>
    let bytes ← query index
    discardOnError do
      let response ← (respond bytes).toAction
      processResponse response

end PrivateRetrieval.Client
