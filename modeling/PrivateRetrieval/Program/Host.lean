/-
The host: a program that serves a database to readers.

To every reader it sends the handshake and then all chunks, each as a frame.
After that it answers each query frame with a frame, until the reader hangs up
between two frames.  A stream that ends inside a query, and a query that is
refused, end the connection as failed.

* **`Host.offline`** — what every reader is sent first;
* **`Host.answerAll`** — the answers to a stream of queries;
* **`Host.run`** — all connections, one after another.
-/
import PrivateRetrieval.Server
import PrivateRetrieval.Wire.Frame
import PrivateRetrieval.Wire.Handshake

namespace PrivateRetrieval.Host

/-- Number of words in the hosted database. -/
def hostedSize : Nat := 65536

/-- Where the host listens, and where readers connect to. -/
def address : String := "127.0.0.1:8080"

/-- The handshake and a frame for every chunk. -/
def offline (p : Params) (chunks : List Chunk) : Bytes :=
  Handshake.encode p ++ chunks.flatMap fun words => Frame.encode (Words.encode words)

/-- What serving a connection comes to: all bytes sent, the events, and how it ended. -/
structure Service where
  sent : Bytes
  events : List Event
  result : Except Failure Unit

/-- Answers the queries of a stream until it ends or one of them is refused. -/
def answerAll (server : Server) (incoming : Bytes) : Service :=
  match _ : Frame.read incoming with
  | .noLength => ⟨[], [], .ok ()⟩
  | .cutBody => ⟨[], [], .error .endOfStream⟩
  | .message query rest =>
    let reply := server.respond query
    match reply.result with
    | .error cause => ⟨[], reply.events, .error (.refused cause)⟩
    | .ok response =>
      let later := answerAll server rest
      { sent := Frame.encode response ++ later.sent
        events := reply.events ++ .answered query.length response.length :: later.events
        result := later.result }
termination_by incoming.length
decreasing_by exact Frame.length_rest_lt ‹_›

/-- Serves one connection from its start, where `greeting` is what every reader is
sent first. -/
def serve (server : Server) (greeting incoming : Bytes) : Service :=
  let online := answerAll server incoming
  { online with
    sent := greeting ++ online.sent
    events := .streamed server.params.chunkCount :: online.events }

/-- What a connection makes the host report. -/
def connectionEvents (peer : String) (service : Service) : List Event :=
  .peerConnected peer :: service.events ++
    match service.result with
    | .ok () => []
    | .error cause => [.connectionFailed peer cause]

/-- What serving all connections comes to: the bytes sent on each, and the events of all in
order. -/
structure Report where
  sent : List Bytes
  events : List Event

/-- Serves connections, each given by the peer's address and what it sends. -/
def serveAll (server : Server) (connections : List (String × Bytes)) : Report :=
  let greeting := offline server.params server.chunks
  let services := connections.map fun (peer, incoming) => (peer, serve server greeting incoming)
  { sent := services.map (·.2.sent)
    events := .listening server.params.dbSize address
      :: services.flatMap fun (peer, service) => connectionEvents peer service }

/-- The server of a drawn database, from the keystream of a seed that is itself
drawn. -/
def openServer (entropy : Bytes) : Except Error Server :=
  Server.setup hostedSize (Keystream.ofSeed entropy).drawSeed.1

/-- The whole program, on connections that are given with everything they send. It ends at
once if there is no server for the drawn database. -/
def run (entropy : Bytes) (connections : List (String × Bytes)) : Except Error Report :=
  (openServer entropy).map (serveAll · connections)

end PrivateRetrieval.Host
