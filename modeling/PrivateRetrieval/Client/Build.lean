/-
The offline phase: hints from a stream of chunks.

All keys are drawn first, those of the primary hints and then those of the
groups of backup hints.  Every chunk is then read once, and taken into every
primary hint and into the backup hints of all other chunks.  A backup hint so
lacks exactly the chunk for which it is kept: the word it will be programmed at
fills that place.

* **`Client.rebuild`** — fresh hints for a session; a stream that does not match
  the parameters leaves everything but the source of keys as it was;
* **`Client.setup`** — the first such build.
-/
import PrivateRetrieval.Client.Basic

namespace PrivateRetrieval

variable {σ K : Type}

section Draw

variable [KeySource σ K]

/-- A fresh hint for each of the next `count` keys. -/
def drawHints : (count : Nat) → σ → List (Slot K) × σ
  | 0, source => ([], source)
  | count + 1, source =>
    let drawn : K × σ := KeySource.drawKey source
    let rest := drawHints count drawn.2
    (some { key := drawn.1 } :: rest.1, rest.2)

/-- `count` groups of `size` fresh hints. -/
def drawGroups (size : Nat) : (count : Nat) → σ → List (List (Slot K)) × σ
  | 0, source => ([], source)
  | count + 1, source =>
    let drawn : List (Slot K) × σ := drawHints size source
    let rest := drawGroups size count drawn.2
    (drawn.1 :: rest.1, rest.2)

/-- Tables of fresh hints that have not met a chunk. -/
def Tables.draw (p : Params) (source : σ) : Tables K × σ :=
  let primary : List (Slot K) × σ := drawHints p.primaryCount source
  let backups : List (List (Slot K)) × σ := drawGroups p.backupsPerChunk p.chunkCount primary.2
  (⟨primary.1, backups.1⟩, backups.2)

end Draw

variable [Prf K]

namespace Tables

/-- Every primary hint takes in its word of a chunk. -/
def absorbPrimary (p : Params) (chunk : Nat) (words : Chunk) (primary : List (Slot K)) :
    List (Slot K) :=
  primary.map (·.map (·.absorb chunk words p.chunkSize))

/-- Every backup hint of another chunk takes in its word of a chunk. -/
def absorbBackups (p : Params) (chunk : Nat) (words : Chunk) (backups : List (List (Slot K))) :
    List (List (Slot K)) :=
  backups.mapIdx fun group slots =>
    if group = chunk then slots else slots.map (·.map (·.absorb chunk words p.chunkSize))

/-- Both tables take in a chunk. There has to be a word to choose wherever a hint
chooses one, and backup hints to cut into groups. -/
def absorb (p : Params) (chunk : Nat) (words : Chunk) (t : Tables K) :
    Outcome Error (Tables K) :=
  if p.chunkSize = 0 ∧ p.primaryCount ≠ 0 then .fault .divisionByZero
  else if p.backupsPerChunk = 0 then .fault .emptyGroups
  else if p.chunkSize = 0 ∧ 1 < p.chunkCount then .fault .divisionByZero
  else .ok ⟨absorbPrimary p chunk words t.primary, absorbBackups p chunk words t.backups⟩

/-- Takes in the chunks from number `chunk` on, which have to be as many and as
long as the parameters say. -/
def absorbStream (p : Params) (chunk : Nat) : List Chunk → Tables K → Outcome Error (Tables K)
  | [], t => if chunk = p.chunkCount then .ok t else .error (.chunkCount p.chunkCount chunk)
  | words :: rest, t =>
    if p.chunkCount ≤ chunk then .error (.chunkCount p.chunkCount (chunk + 1))
    else if words.length ≠ p.chunkSize then
      .error (.chunkLength chunk p.chunkSize words.length)
    else (t.absorb p chunk words).bind (absorbStream p (chunk + 1) rest)

end Tables

namespace Client

variable [KeySource σ K]

/-- Fresh hints over a stream of chunks. The counters start again and a pending
query is dropped, while retrieved words stay. -/
def rebuild (stream : List Chunk) : Act σ K Unit := fun client =>
  let p := client.params
  let drawn : Tables K × σ := Tables.draw p client.source
  let client := { client with source := drawn.2 }
  match drawn.1.absorbStream p 0 stream with
  | .ok tables =>
    { outcome := .ok ()
      state := { client with
        tables, consumed := List.replicate p.chunkCount 0, pending := none }
      events := [.hintsBuilt p.primaryCount p.backupCount p.chunkCount] }
  | .error cause => ⟨.error cause, client, []⟩
  | .fault cause => ⟨.fault cause, client, []⟩

/-- A new session with hints over a stream of chunks; the state is ready for
queries if the outcome is a value. -/
def setup (params : Params) (source : σ) (stream : List Chunk) : Step Error (Client σ K) Unit :=
  (rebuild stream).run { params, source }

end Client

end PrivateRetrieval
