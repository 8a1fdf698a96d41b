/-
From an index to a query.

Selection finds the first live primary hint whose trace passes through the
index.  What is sent is that trace without the entry of the queried chunk,
removed by position: whichever chunk it was, the same number of offsets remain.

* **`Client.select`**, **`Client.randomQuery`** — a query for a given index, or
  for a random one that is not cached;
* **`Client.prepare`** — its punctured offsets;
* **`Client.query`**, **`Client.randomQueryBytes`** — both steps, as bytes.
-/
import PrivateRetrieval.Client.Basic
import PrivateRetrieval.Random.Source
import PrivateRetrieval.Wire.Words

namespace PrivateRetrieval

/-- The first primary position whose hint passes through `index`. -/
def Tables.firstThrough {K : Type} [Prf K] (t : Tables K) (index chunk chunkSize : Nat) :
    Option Nat :=
  t.primary.findIdx? fun slot => slot.any (·.elementAt chunk chunkSize = index)

/-- A query as it travels, its offsets as a list of words. -/
def encodeOffsets (offsets : List Nat) : Bytes :=
  Words.encode (offsets.map UInt64.ofNat)

/-- How often a draw is repeated before it counts as endless. -/
def drawLimit : Nat := wordRange

/-- An index below `size` that is not in the cache, drawn again until there is
one. -/
def drawUncached {σ : Type} [RandomSource σ] (cache : Cache) (size : Nat) :
    (limit : Nat) → σ → Option Nat × σ
  | 0, source => (none, source)
  | limit + 1, source =>
    let drawn := drawBelow size source
    if cache.contains drawn.1 then drawUncached cache size limit drawn.2
    else (some drawn.1, drawn.2)

namespace Client

variable {σ K : Type} [Prf K]

/-- Selects a primary hint through `index`, which then is the pending query. -/
def select (index : Nat) : Act σ K Query := fun client =>
  let p := client.params
  let refuse (cause : Error) : Step Error (Client σ K) Query := ⟨.error cause, client, []⟩
  if client.pending.isSome then refuse .queryPending
  else if p.dbSize ≤ index then refuse (.indexOutOfRange index p.dbSize)
  else if client.cache.contains index then refuse (.alreadyCached index)
  else if p.chunkSize = 0 then ⟨.fault .divisionByZero, client, []⟩
  else
    let chunk := p.chunkOf index
    match client.tables.firstThrough index chunk p.chunkSize with
    | some slot =>
      let query : Query := { index, chunk, slot }
      ⟨.ok query, { client with pending := some query }, []⟩
    | none => ⟨.error (.hintMiss index), client, [.uncovered index chunk]⟩

/-- Selects a hint through a random index that is not cached. -/
def randomQuery [RandomSource σ] : Act σ K Query := fun client =>
  let size := client.params.dbSize
  if client.pending.isSome then ⟨.error .queryPending, client, []⟩
  else if size ≤ client.cache.size then ⟨.error .allCached, client, []⟩
  else
    let drawn := drawUncached client.cache size drawLimit client.source
    let client := { client with source := drawn.2 }
    match drawn.1 with
    | some index => select index client
    | none => ⟨.fault .endlessDraws, client, []⟩

omit [Prf K] in
/-- The hint selected for a query, if it is the pending one. -/
def pendingHint (client : Client σ K) (query : Query) : Outcome Error (Hint K) :=
  if client.pending ≠ some query then .error .noPendingQuery
  else
    match client.tables.hint? query.slot with
    | some hint => .ok hint
    | none => .error .noPendingQuery

/-- The offsets of the pending query's hint in all chunks but the queried one. -/
def prepare (client : Client σ K) (query : Query) : Outcome Error (List Nat) :=
  (client.pendingHint query).bind fun hint =>
    match hint.trace? client.params.chunkCount client.params.chunkSize with
    | none => .fault .divisionByZero
    | some offsets =>
      if query.chunk < offsets.length then .ok (offsets.eraseIdx query.chunk)
      else .fault .outOfBounds

/-- Selects a hint through `index` and yields the query as bytes. -/
def query (index : Nat) : Act σ K Bytes := do
  let query ← select index
  let offsets ← Action.read (prepare · query)
  return encodeOffsets offsets

/-- A query for a random index that is not cached, as bytes beside the index. -/
def randomQueryBytes [RandomSource σ] : Act σ K (Nat × Bytes) := do
  let query ← randomQuery
  let offsets ← Action.read (prepare · query)
  return (query.index, encodeOffsets offsets)

end Client

end PrivateRetrieval
