/-
A session in front of a server, round after round.

A round asks for a random word that is not cached.  After an error that fresh
hints cure the hints are built again; any other error ends the drive.
-/
import PrivateRetrieval.Client.Build
import PrivateRetrieval.Client.Recover
import PrivateRetrieval.Server

namespace PrivateRetrieval.Client

variable {σ K : Type} [Prf K] [RandomSource σ]

/-- One random query, answered by the server: the index and its word. -/
def round (server : Server) : Act σ K (Nat × UInt64) := do
  let (index, query) ← randomQueryBytes
  let response ← (server.respond query).toAction
  let word ← processResponse response
  return (index, word)

/-- At most `count` rounds, with the result of each. -/
def drive [KeySource σ K] (server : Server) :
    (count : Nat) → Act σ K (List (Except Error (Nat × UInt64)))
  | 0 => return []
  | count + 1 => do
    match ← (round server).attempt with
    | .ok found =>
      let rest ← drive server count
      return .ok found :: rest
    | .error cause =>
      if cause.curedByRebuild then
        match ← (rebuild server.chunks).attempt with
        | .ok () =>
          let rest ← drive server count
          return .error cause :: rest
        | .error failed => return [.error cause, .error failed]
      else return [.error cause]

end PrivateRetrieval.Client
