/-
The reader and the host in one process.

Both take their seeds from the operating system; what the reader writes is
answered by the host's server, and the words are printed line by line.
-/
import PrivateRetrieval.Program.Reader

open PrivateRetrieval

/-- Hosts a database and reads from it. The exit code is zero if every listed word was
printed. -/
def main : IO UInt32 := do
  let hostEntropy ← IO.getRandomBytes 32
  let readerEntropy ← IO.getRandomBytes 32
  match Host.openServer hostEntropy.toList with
  | .error cause =>
    IO.eprintln cause.message
    return 1
  | .ok server =>
    let offline := Host.offline server.params server.chunks
    let step := Reader.run readerEntropy.toList offline (Reader.Peer.ofServer server)
    for line in step.state.lines do
      IO.println line
    match step.outcome with
    | .ok () => return 0
    | .error cause =>
      IO.eprintln cause.message
      return 1
    | .fault _ => return 1
