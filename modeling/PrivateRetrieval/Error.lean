/-
What can be refused, and why.

* **`DecodeError`** — why bytes are not a message;
* **`Error`** — why an operation on parameters, a server or a client was
  refused, with `Error.message` for its wording and `Error.curedByRebuild` for
  the two causes that fresh hints take away;
* **`Failure`** — why a program gave up on a connection.
-/
import PrivateRetrieval.Wire.LittleEndian

namespace PrivateRetrieval

/-- Why bytes are not an encoding. -/
inductive DecodeError where
  | shortPrefix (found : Nat)
  /-- The bytes after the count are not as many as the declared words need. -/
  | lengthMismatch (declared found : Nat)
  | handshakeLength (found : Nat)
  /-- Refused by whoever carried the bytes, in their words. -/
  | reported (text : String)
deriving DecidableEq

/-- The wording of a cause, as it stands at the end of that of the error. -/
def DecodeError.message : DecodeError → String
  | .shortPrefix found =>
    s!"need at least {prefixWidth} bytes for length prefix, found {found}"
  | .lengthMismatch declared found =>
    s!"declared {declared} words, which need {declared * wordWidth} bytes, found {found}"
  | .handshakeLength found => s!"parameters must be {wordWidth} bytes, found {found}"
  | .reported text => text

/-- Why an operation was refused. -/
inductive Error where
  | emptyDatabase
  /-- A budget without primary hints, or without backup hints for a chunk. -/
  | noHints
  | chunkCount (expected found : Nat)
  | chunkLength (chunk expected found : Nat)
  /-- An index, or the number of a chunk, past the end. -/
  | indexOutOfRange (index dbSize : Nat)
  /-- An index whose word is known: asking again would link two queries. -/
  | alreadyCached (index : Nat)
  | allCached
  | hintMiss (index : Nat)
  | queryPending
  /-- The query is not the pending one. -/
  | noPendingQuery
  /-- The word was retrieved, but no backup hint is left to replace its hint. -/
  | backupsExhausted (chunk index : Nat)
  /-- A query with fewer or more offsets than there are chunks but one. -/
  | offsetCount (expected found : Nat)
  /-- A query with an offset past the end of its chunk. -/
  | offsetOutOfRange (position offset chunkSize : Nat)
  /-- An answer with fewer or more parities than there are chunks. -/
  | parityCount (expected found : Nat)
  | undecodable (cause : DecodeError)
deriving DecidableEq

namespace Error

/-- The wording of an error. -/
def message : Error → String
  | emptyDatabase => "Database must hold at least one word."
  | noHints => "Number of primary hints and backup hints per chunk must be non-zero."
  | chunkCount expected found => s!"Expected {expected} database chunks, found {found}."
  | chunkLength chunk expected found =>
    s!"Database chunk {chunk} must have {expected} words, found {found}."
  | indexOutOfRange index dbSize =>
    s!"Index {index} is out of range for a database of {dbSize} words."
  | alreadyCached index =>
    s!"Index {index} was already retrieved, it is served from local cache."
  | allCached => "Every database index is already present in local cache."
  | hintMiss index => s!"No live primary hint covers index {index}, hint budget is undersized."
  | queryPending => "Pending query found in internal client state."
  | noPendingQuery => "No matching pending query in internal client state."
  | backupsExhausted chunk index =>
    s!"Backup hints of chunk {chunk} are exhausted, after retrieving index {index}. "
      ++ "Hints must be rebuilt."
  | offsetCount expected found =>
    s!"Punctured offset vector must have {expected} entries, found {found}."
  | offsetOutOfRange position offset chunkSize =>
    s!"Offset {offset} at position {position} is not within chunk of size {chunkSize}."
  | parityCount expected found => s!"Response vector must have {expected} parities, found {found}."
  | undecodable cause => s!"Deserialization failed with: {cause.message}"

/-- A miss and an exhausted chunk happen now and then in a healthy session, and
fresh hints take both away. -/
def curedByRebuild : Error → Bool
  | hintMiss _ | backupsExhausted _ _ => true
  | _ => false

end Error

/-- Why a program gave up on a connection. -/
inductive Failure where
  | endOfStream
  | refused (cause : Error)
deriving DecidableEq

/-- The wording of a failure, which is that of its error if there is one. -/
def Failure.message : Failure → String
  | endOfStream => "early eof"
  | refused cause => cause.message

end PrivateRetrieval
