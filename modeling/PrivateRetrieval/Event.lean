/-
Events that a session or a program reports while it works.

An `Event` says what happened; its level, wording and fields are functions of
it.  A step of the protocol returns its events beside its result, in order.
-/
import PrivateRetrieval.Error

namespace PrivateRetrieval

/-- How much an event matters, from the least to the most. -/
inductive Level where
  | trace | debug | info | warn | error
deriving DecidableEq

/-- The level as it is printed. -/
def Level.name : Level → String
  | trace => "TRACE"
  | debug => "DEBUG"
  | info => "INFO"
  | warn => "WARN"
  | error => "ERROR"

/-- Something worth reporting, by a session, a server or a program. -/
inductive Event where
  /-- Fresh hints have taken in every chunk. -/
  | hintsBuilt (primary backups chunks : Nat)
  | uncovered (index chunk : Nat)
  /-- The last backup hint of the chunk was gone, so the used hint was retired. -/
  | exhausted (chunk index : Nat)
  | discarded (index : Nat)
  | processed (chunks : Nat)
  | connected (address : String)
  | readerReady (dbSize primary : Nat)
  /-- The reader builds its hints again because of an error. -/
  | rebuilding (index : Nat) (cause : Error)
  | listening (dbSize : Nat) (address : String)
  | peerConnected (peer : String)
  | streamed (chunks : Nat)
  | answered (queryLength responseLength : Nat)
  | connectionFailed (peer : String) (cause : Failure)
deriving DecidableEq

namespace Event

/-- The level at which an event is reported. -/
def level : Event → Level
  | processed _ => .trace
  | hintsBuilt _ _ _ | answered _ _ => .debug
  | connected _ | readerReady _ _ | listening _ _ | peerConnected _ | streamed _ => .info
  | uncovered _ _ | exhausted _ _ | discarded _ | rebuilding _ _ => .warn
  | connectionFailed _ _ => .error

/-- The wording of an event, without the values that are shown with it. -/
def message : Event → String
  | hintsBuilt _ _ _ => "built hints from database snapshot"
  | uncovered _ _ => "no live primary hint covers index"
  | exhausted _ _ => "backup hints exhausted, retired primary hint"
  | discarded _ => "discarded pending query, retired its primary hint"
  | processed _ => "processed punctured query"
  | connected _ => "connected to PIR server"
  | readerReady _ _ => "PIR client ready"
  | rebuilding _ _ => "rebuilding hints"
  | listening _ _ => "PIR server listening"
  | peerConnected _ => "new connection from PIR client"
  | streamed _ => "streamed database to PIR client"
  | answered _ _ => "answered query"
  | connectionFailed _ _ => "connection failed"

/-- The named values that are shown with an event. -/
def fields : Event → List (String × String)
  | hintsBuilt primary backups chunks =>
    [("num_primary_hints", toString primary), ("num_backup_hints", toString backups),
      ("chunk_num", toString chunks)]
  | uncovered index chunk => [("index", toString index), ("chunk_id", toString chunk)]
  | exhausted chunk index => [("chunk_id", toString chunk), ("index", toString index)]
  | discarded index => [("index", toString index)]
  | processed chunks => [("chunk_num", toString chunks)]
  | connected address => [("address", address)]
  | readerReady dbSize primary =>
    [("db_size", toString dbSize), ("num_primary_hints", toString primary)]
  | rebuilding index cause => [("index", toString index), ("error", cause.message)]
  | listening dbSize address => [("db_size", toString dbSize), ("address", address)]
  | peerConnected peer => [("peer_address", peer)]
  | streamed chunks => [("chunk_num", toString chunks)]
  | answered queryLength responseLength =>
    [("query_len", toString queryLength), ("response_len", toString responseLength)]
  | connectionFailed peer cause => [("peer_address", peer), ("error", cause.message)]

end Event

end PrivateRetrieval
