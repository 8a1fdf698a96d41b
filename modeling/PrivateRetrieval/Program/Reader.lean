/-
The reader: a program that retrieves a few words from a host.

Over one connection it reads the handshake and every chunk, builds its hints and
asks for the listed indices, as far as the database has them.  The connection is
a stream of bytes to read, and a peer that makes more of them readable whenever
the reader has written a message.

* **`Reader.Peer`** — the other end, of which `Peer.ofServer` is the honest one;
* **`Reader.readDatabase`** — the offline phase of the stream;
* **`Reader.fetch`** — one word, with fresh hints after a miss;
* **`Reader.run`** — the whole program.
-/
import PrivateRetrieval.Client.Build
import PrivateRetrieval.Client.Recover
import PrivateRetrieval.Prf.TurboShake
import PrivateRetrieval.Program.Host

namespace PrivateRetrieval.Reader

/-- The indices that are asked for. -/
def wanted : List Nat := [0, 4242, 31337, 65535]

/-- What becomes readable, and what the peer reports, when the reader has
written a message; messages are numbered from zero. -/
abbrev Peer := Nat → Bytes → Bytes × List Event

/-- A connection and what the reader has done on it. -/
structure Connection where
  unread : Bytes
  written : List Bytes := []
  printed : List (Nat × UInt64) := []

/-- A session that draws keys and indices from a keystream. -/
abbrev Session := Client Keystream TurboShake.Key

/-- A connection in its online phase. -/
structure Visit where
  connection : Connection
  session : Session

/-- The peer that answers every message in a frame, as long as the server does. -/
def Peer.ofServer (server : Server) : Peer := fun _ query =>
  let reply := server.respond query
  match reply.result with
  | .ok response => (Frame.encode response, reply.events)
  | .error _ => ([], reply.events)

/-- The value of a result; its error ends the program. -/
def check {σ α : Type} (result : Except Error α) : Action Failure σ α :=
  Action.done ((Outcome.ofExcept result).mapError .refused)

/-- Ends the program with an error. -/
def refuse {σ α : Type} (cause : Error) : Action Failure σ α :=
  Action.done (.error (.refused cause))

/-- The next `count` bytes of the stream. If there are fewer, they are left unread. -/
def readBytes (count : Nat) : Action Failure Connection Bytes := fun connection =>
  let front := connection.unread.take count
  if front.length < count then ⟨.error .endOfStream, connection, []⟩
  else ⟨.ok front, { connection with unread := connection.unread.drop count }, []⟩

/-- The body of the next frame. A stream that ends before the frame does is a failure. -/
def readMessage : Action Failure Connection Bytes := fun connection =>
  match Frame.read connection.unread with
  | .message body rest => ⟨.ok body, { connection with unread := rest }, []⟩
  | _ => ⟨.error .endOfStream, connection, []⟩

/-- Writes a message in a frame, upon which the peer may answer. -/
def writeMessage (peer : Peer) (message : Bytes) : Action Failure Connection Unit :=
  fun connection =>
    let reaction := peer connection.written.length message
    { outcome := .ok ()
      state := { connection with
        unread := connection.unread ++ reaction.1
        written := connection.written ++ [message] }
      events := reaction.2 }

/-- Prints the word of an index. -/
def print (index : Nat) (word : UInt64) : Action Failure Connection Unit :=
  Action.update fun connection =>
    { connection with printed := connection.printed ++ [(index, word)] }

/-- The next `count` chunks. Each is decoded before the next one is read. -/
def readChunks : (count : Nat) → Action Failure Connection (List Chunk)
  | 0 => return []
  | count + 1 => do
    let message ← readMessage
    let words ← check (Words.decode message)
    let rest ← readChunks count
    return words :: rest

/-- The offline phase of the stream: the handshake, and as many chunks as follow from it. -/
def readDatabase : Action Failure Connection (Params × List Chunk) := do
  let hello ← readBytes wordWidth
  let params ← check (Handshake.decode hello)
  let chunks ← readChunks params.chunkCount
  return (params, chunks)

/-- The first session, whose hints are built over the chunks with the keystream of a seed.
-/
def openSession (seed : Bytes) (params : Params) (chunks : List Chunk) :
    Action Failure Connection Session := fun connection =>
  let step : Step Error Session Unit := Client.setup params (Keystream.ofSeed seed) chunks
  { outcome := (step.outcome.mapError .refused).bind fun () => .ok step.state
    state := connection
    events := step.events }

/-- A step of the connection, which leaves the session alone. -/
def onConnection {α : Type} (action : Action Failure Connection α) : Action Failure Visit α :=
  action.onPart Visit.connection (fun connection visit => { visit with connection }) id

/-- An operation of the session, which leaves the connection alone. -/
def onSession {α : Type} (action : Action Error Session α) : Action Failure Visit α :=
  action.onPart Visit.session (fun session visit => { visit with session }) .refused

/-- A query for `index`, from fresh hints if the first try missed. -/
def ask (chunks : List Chunk) (index : Nat) : Action Failure Visit Bytes := do
  match ← onSession (Client.query index).attempt with
  | .ok query => return query
  | .error cause =>
    if cause.curedByRebuild then
      Action.report (.rebuilding index cause)
      onSession (Client.rebuild chunks)
      onSession (Client.query index)
    else refuse cause

/-- Asks for the word of `index` and prints it. The word is known even if no
backup hint was left for it, and then the hints are built again. -/
def fetch (peer : Peer) (chunks : List Chunk) (index : Nat) : Action Failure Visit Unit := do
  let query ← ask chunks index
  onConnection (writeMessage peer query)
  let response ← onConnection readMessage
  match ← onSession (Client.processResponse response).attempt with
  | .ok word => onConnection (print index word)
  | .error cause =>
    if cause.curedByRebuild then
      let word ← Action.read fun visit => .ok ((visit.session.cached index).getD 0)
      onConnection (print index word)
      onSession (Client.rebuild chunks)
    else refuse cause

/-- Fetches one index after another, until the program ends. -/
def fetchAll (peer : Peer) (chunks : List Chunk) : List Nat → Action Failure Visit Unit
  | [] => return ()
  | index :: rest => do
    fetch peer chunks index
    fetchAll peer chunks rest

/-- Goes online with a session, and keeps the connection of it. -/
def withSession (session : Session) (action : Action Failure Visit Unit) :
    Action Failure Connection Unit := fun connection =>
  let step := action { connection, session }
  ⟨step.outcome, step.state.connection, step.events⟩

/-- The whole program, as an action on the connection. -/
def program (entropy : Bytes) (peer : Peer) : Action Failure Connection Unit := do
  Action.report (.connected Host.address)
  let (params, chunks) ← readDatabase
  let session ← openSession (Keystream.ofSeed entropy).drawSeed.1 params chunks
  Action.report (.readerReady params.dbSize params.primaryCount)
  withSession session (fetchAll peer chunks (wanted.filter (· < params.dbSize)))

/-- Runs the program on a connection from which `offline` can be read. -/
def run (entropy offline : Bytes) (peer : Peer) : Step Failure Connection Unit :=
  (program entropy peer).run { unread := offline }

/-- All bytes that have been written, in frames. -/
def Connection.sent (connection : Connection) : Bytes :=
  connection.written.flatMap Frame.encode

/-- The sixteen hexadecimal digits of a word. -/
def hexDigits (word : UInt64) : String :=
  let digits := Nat.toDigits 16 word.toNat
  String.ofList (List.replicate (16 - digits.length) '0' ++ digits)

/-- The line that is printed for a word. -/
def line (index : Nat) (word : UInt64) : String :=
  s!"DB[{index}] = 0x{hexDigits word}"

/-- All lines that have been printed, in order. -/
def Connection.lines (connection : Connection) : List String :=
  connection.printed.map fun (index, word) => line index word

end PrivateRetrieval.Reader
