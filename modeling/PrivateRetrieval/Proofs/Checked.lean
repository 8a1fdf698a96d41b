/-
The program with its partial steps made explicit.

A list has an entry at some positions and not at others, a number can be divided by some
numbers and not by zero, and a counter can be too large for a word.  The functions of the
program give such steps a value everywhere.  Here they are written once more, with each
of these steps as one that may have no value: where it has none, the whole operation
ends with a fault.

* **`Checked.entry`**, **`Checked.put`**, **`Checked.remove`**, **`Checked.splitAt`**,
  **`Checked.copy`**, **`Checked.pieces`** — lists, at positions that have to be there;
* **`Checked.quotient`**, **`Checked.remainder`**, **`Checked.difference`**, **`Checked.sum`**,
  **`Checked.product`** — numbers that have to fit into a word;
* **`Checked.encode`**, **`Checked.decode`**, **`Checked.process`**, **`Checked.respond`** — the
  wire and the server;
* **`Checked.setup`**, **`Checked.act`**, **`Checked.remainingBackups`** — the client.

That the two programs are the same is proved elsewhere; nothing here is assumed of states,
parameters or arguments.
-/
import PrivateRetrieval.Proofs.Session

namespace PrivateRetrieval.Checked

variable {α β σ K : Type}

/-! ### Partial steps -/

/-- The entry at a position. -/
def entry (list : List α) (position : Nat) : Outcome Error α :=
  match list[position]? with
  | some value => .ok value
  | none => .fault .outOfBounds

/-- The list with another entry at a position. -/
def put (list : List α) (position : Nat) (value : α) : Outcome Error (List α) :=
  if position < list.length then .ok (list.set position value) else .fault .outOfBounds

/-- The list without the entry at a position. -/
def remove (list : List α) (position : Nat) : Outcome Error (List α) :=
  if position < list.length then .ok (list.eraseIdx position) else .fault .outOfBounds

/-- The list in two parts, the first of the given length. -/
def splitAt (list : List α) (length : Nat) : Outcome Error (List α × List α) :=
  if length ≤ list.length then .ok (list.take length, list.drop length) else .fault .outOfBounds

/-- `target` overwritten with as many entries. -/
def copy (target given : List α) : Outcome Error (List α) :=
  if target.length = given.length then .ok given else .fault .outOfBounds

/-- Pieces of `size` entries, without the rest that is too short. -/
def pieces (size : Nat) (list : List α) : Outcome Error (List (List α)) :=
  if size = 0 then .fault .emptyGroups
  else .ok ((List.range (list.length / size)).map fun place =>
    (list.drop (place * size)).take size)

/-- One entry after another, until there is a fault or an error. -/
def each (f : α → Outcome Error β) : List α → Outcome Error (List β)
  | [] => .ok []
  | first :: rest => do
    let value ← f first
    let values ← each f rest
    return value :: values

/-- The quotient by a number that is not zero. -/
def quotient (number divisor : Nat) : Outcome Error Nat :=
  if divisor = 0 then .fault .divisionByZero else .ok (number / divisor)

/-- The remainder by a number that is not zero. -/
def remainder (number divisor : Nat) : Outcome Error Nat :=
  if divisor = 0 then .fault .divisionByZero else .ok (number % divisor)

/-- The difference from a number that is no larger. -/
def difference (number less : Nat) : Outcome Error Nat :=
  if less ≤ number then .ok (number - less) else .fault .outOfBounds

/-- A number that fits into a word. -/
def fit (number : Nat) : Outcome Error Nat :=
  if number < UInt64.size then .ok number else .fault .outOfBounds

/-- A sum that fits into a word. -/
def sum (number more : Nat) : Outcome Error Nat := fit (number + more)

/-- A product that fits into a word. -/
def product (number factor : Nat) : Outcome Error Nat := fit (number * factor)

/-! ### Where they have a value -/

theorem ok_bind (value : α) (next : α → Outcome Error β) :
    (Outcome.ok value >>= next) = next value := rfl

theorem entry_of_getElem? {list : List α} {position : Nat} {value : α}
    (there : list[position]? = some value) : entry list position = .ok value := by
  rw [entry, there]

theorem put_of_lt {list : List α} {position : Nat} (within : position < list.length) (value : α) :
    put list position value = .ok (list.set position value) :=
  if_pos within

theorem remove_of_lt {list : List α} {position : Nat} (within : position < list.length) :
    remove list position = .ok (list.eraseIdx position) :=
  if_pos within

theorem splitAt_of_le {list : List α} {length : Nat} (within : length ≤ list.length) :
    splitAt list length = .ok (list.take length, list.drop length) :=
  if_pos within

theorem copy_of_length {target given : List α} (same : target.length = given.length) :
    copy target given = .ok given :=
  if_pos same

theorem pieces_of_pos {size : Nat} (pos : 0 < size) (list : List α) :
    pieces size list = .ok ((List.range (list.length / size)).map fun place =>
      (list.drop (place * size)).take size) :=
  if_neg (Nat.ne_of_gt pos)

theorem each_of_ok {f : α → Outcome Error β} {g : α → β} {list : List α}
    (value : ∀ entry ∈ list, f entry = .ok (g entry)) : each f list = .ok (list.map g) := by
  induction list with
  | nil => rfl
  | cons first rest ih =>
    rw [each, value first List.mem_cons_self, ok_bind,
      ih fun entry member => value entry (List.mem_cons_of_mem first member), ok_bind]
    rfl

theorem quotient_of_pos {divisor : Nat} (pos : 0 < divisor) (number : Nat) :
    quotient number divisor = .ok (number / divisor) :=
  if_neg (Nat.ne_of_gt pos)

theorem remainder_of_pos {divisor : Nat} (pos : 0 < divisor) (number : Nat) :
    remainder number divisor = .ok (number % divisor) :=
  if_neg (Nat.ne_of_gt pos)

theorem difference_of_le {number less : Nat} (le : less ≤ number) :
    difference number less = .ok (number - less) :=
  if_pos le

theorem sum_of_lt {number more : Nat} (fits : number + more < UInt64.size) :
    sum number more = .ok (number + more) :=
  if_pos fits

theorem product_of_lt {number factor : Nat} (fits : number * factor < UInt64.size) :
    product number factor = .ok (number * factor) :=
  if_pos fits

/-! ### Words on the wire -/

/-- The word that the first bytes spell, at most eight. -/
def readWord (bytes : Bytes) : Outcome Error UInt64 := do
  let count := min bytes.length wordWidth
  let target ← splitAt (List.replicate wordWidth 0) count
  let given ← splitAt bytes count
  let low ← copy target.1 given.1
  return UInt64.ofNat (LittleEndian.decode (low ++ target.2))

/-- The bytes with those of a word in front, at most eight. -/
def writeWord (word : UInt64) (bytes : Bytes) : Outcome Error Bytes := do
  let count := min bytes.length wordWidth
  let target ← splitAt bytes count
  let given ← splitAt (Words.encodeWord word) count
  let low ← copy target.1 given.1
  return low ++ target.2

/-- Words as bytes, written one by one into a buffer of the length that they need. -/
def encode (words : List UInt64) : Outcome Error Bytes := do
  let body ← product words.length wordWidth
  let length ← sum prefixWidth body
  let parts ← splitAt (List.replicate length 0) prefixWidth
  let count ← copy parts.1 (LittleEndian.encode prefixWidth words.length)
  let places ← pieces wordWidth parts.2
  let written ← each (fun (place, word) => writeWord word place) (places.zip words)
  return count ++ written.flatten

/-- The words in bytes, read one by one behind their count. -/
def decode (bytes : Bytes) : Outcome Error (List UInt64) :=
  if bytes.length < prefixWidth then .error (.undecodable (.shortPrefix bytes.length))
  else do
    let parts ← splitAt bytes prefixWidth
    let declared ← readWord parts.1
    let needed ← product declared.toNat wordWidth
    if parts.2.length ≠ needed then
      .error (.undecodable (.lengthMismatch declared.toNat parts.2.length))
    else do
      let places ← pieces wordWidth parts.2
      each readWord places

/-! ### Server -/

section Server

variable (s : Server)

/-- The word at an index of the padded database. Only below the end of the database is there one to
look up. -/
def wordAt (index : Nat) : Outcome Error UInt64 :=
  if index < s.params.dbSize then entry s.words.toList index else .ok 0

/-- The word at an offset in a chunk, whose address has to fit into a word. -/
def word (chunk offset : Nat) : Outcome Error UInt64 := do
  let start ← product chunk s.params.chunkSize
  let index ← sum start offset
  wordAt s index

/-- The words of a chunk, from the address of its first to that of the next chunk. -/
def paddedChunk (chunk : Nat) : Outcome Error Chunk := do
  let start ← product chunk s.params.chunkSize
  let stop ← sum start s.params.chunkSize
  each (wordAt s) (List.range' start (stop - start))

/-- A chunk, if there is one of this number. -/
def chunk (chunk : Nat) : Outcome Error Chunk :=
  if s.params.chunkCount ≤ chunk then .error (.indexOutOfRange chunk s.params.chunkCount)
  else paddedChunk s chunk

/-- All chunks, in order. -/
def chunks : Outcome Error (List Chunk) :=
  each (paddedChunk s) (List.range s.params.chunkCount)

/-- A chunk as bytes. -/
def chunkBytes (number : Nat) : Outcome Error Bytes := do
  let words ← chunk s number
  encode words

/-- A word in the clear, if the database has one at the index. -/
def readDirect (index : Nat) : Outcome Error UInt64 :=
  if s.params.dbSize ≤ index then .error (.indexOutOfRange index s.params.dbSize)
  else entry s.words.toList index

/-- Takes the words of offsets into a parity, each in the chunk after its position. -/
def parityFrom (parity : UInt64) (position : Nat) : List Nat → Outcome Error UInt64
  | [] => .ok parity
  | offset :: rest => do
    let chunk ← sum position 1
    let next ← word s chunk offset
    parityFrom (parity ^^^ next) chunk rest

/-- Writes the parities behind a position, each from the one before. -/
def slide (parities : List UInt64) (position : Nat) : List Nat → Outcome Error (List UInt64)
  | [] => .ok parities
  | offset :: rest => do
    let chunk ← sum position 1
    let next ← word s chunk offset
    let this ← word s position offset
    let parity ← entry parities position
    let parities ← put parities chunk (parity ^^^ next ^^^ this)
    slide parities chunk rest

/-- A parity for every chunk that may have been left out. -/
def parities (offsets : List Nat) : Outcome Error (List UInt64) := do
  let first ← parityFrom s 0 0 offsets
  let parities ← put (List.replicate s.params.chunkCount 0) 0 first
  slide s parities 0 offsets

/-- The parities for offsets. The first offset that is too large is looked up again for the error.
-/
def process (offsets : List Nat) : Action Error σ (List UInt64) := do
  let expected ← Action.done (difference s.params.chunkCount 1)
  if offsets.length ≠ expected then
    Action.done (.error (.offsetCount expected offsets.length))
  else
    match offsets.findIdx? (s.params.chunkSize ≤ ·) with
    | some position => do
      let offset ← Action.done (entry offsets position)
      Action.done (.error (.offsetOutOfRange position offset s.params.chunkSize))
    | none => do
      let parities ← Action.done (parities s offsets)
      Action.report (.processed s.params.chunkCount)
      return parities

/-- The answer to a query that came as bytes. -/
def respond (query : Bytes) : Action Error σ Bytes := do
  let words ← Action.done (decode query)
  let parities ← process s (words.map UInt64.toNat)
  Action.done (encode parities)

end Server

/-! ### Hints -/

section Hint

variable [Prf K]

/-- The offset that a key picks in a chunk, which has to have words. -/
def keyOffset (key : K) (chunk chunkSize : Nat) : Outcome Error Nat :=
  remainder (Prf.eval key chunk).toNat chunkSize

/-- The offset of the trace in a chunk. -/
def offsetAt (hint : Hint K) (chunk chunkSize : Nat) : Outcome Error Nat :=
  match hint.point with
  | some point => do
    let own ← quotient point chunkSize
    if own = chunk then remainder point chunkSize else keyOffset hint.key chunk chunkSize
  | none => keyOffset hint.key chunk chunkSize

/-- The index at the offset of the trace in a chunk. -/
def indexAt (hint : Hint K) (chunk chunkSize : Nat) : Outcome Error Nat := do
  let offset ← offsetAt hint chunk chunkSize
  let start ← product chunk chunkSize
  sum offset start

/-- The index at which the trace passes through a chunk. -/
def elementAt (hint : Hint K) (chunk chunkSize : Nat) : Outcome Error Nat :=
  match hint.point with
  | some point => do
    let own ← quotient point chunkSize
    if own = chunk then return point else indexAt hint chunk chunkSize
  | none => indexAt hint chunk chunkSize

/-- The offsets of the trace in all chunks, in order. -/
def trace (hint : Hint K) (chunkCount chunkSize : Nat) : Outcome Error (List Nat) :=
  each (offsetAt hint · chunkSize) (List.range chunkCount)

/-- A slot after a chunk: a hint takes in the word at its offset. -/
def absorbSlot (chunk : Nat) (words : Chunk) (chunkSize : Nat) :
    Slot K → Outcome Error (Slot K)
  | some hint => do
    let offset ← offsetAt hint chunk chunkSize
    let word ← entry words offset
    return some (hint.xorParity word)
  | none => .ok none

/-- The tables after a chunk. Backup hints are one row that is cut into groups, so that there has to
be a hint in each. -/
def absorb (p : Params) (chunk : Nat) (words : Chunk) (t : Tables K) :
    Outcome Error (Tables K) := do
  let primary ← each (absorbSlot chunk words p.chunkSize) t.primary
  if p.backupsPerChunk = 0 then .fault .emptyGroups
  else do
    let backups ← each (fun (slots, group) =>
      if group = chunk then .ok slots else each (absorbSlot chunk words p.chunkSize) slots)
      t.backups.zipIdx
    return ⟨primary, backups⟩

/-- The tables after the rest of a stream, from a chunk on. A stream that is too long is told by its
next chunk. -/
def absorbStream (p : Params) (chunk : Nat) : List Chunk → Tables K → Outcome Error (Tables K)
  | [], t => if chunk = p.chunkCount then .ok t else .error (.chunkCount p.chunkCount chunk)
  | words :: rest, t =>
    if p.chunkCount ≤ chunk then do
      let found ← sum chunk 1
      .error (.chunkCount p.chunkCount found)
    else if words.length ≠ p.chunkSize then
      .error (.chunkLength chunk p.chunkSize words.length)
    else do
      let t ← absorb p chunk words t
      let next ← sum chunk 1
      absorbStream p next rest t

/-- Whether a hint passes through `index`. -/
def passes (index chunk chunkSize : Nat) : Slot K → Outcome Error Bool
  | some hint => do
    let element ← elementAt hint chunk chunkSize
    return decide (element = index)
  | none => .ok false

/-- The first primary position whose hint passes through `index`. All slots are looked at, since any
of them may fault. -/
def firstThrough (t : Tables K) (index chunk chunkSize : Nat) : Outcome Error (Option Nat) := do
  let found ← each (passes index chunk chunkSize) t.primary
  return found.findIdx? id

end Hint

/-! ### Client -/

section Client

variable [Prf K]

/-- The state, to be read. -/
def current : Client.Act σ K (Client σ K) := Action.read .ok

/-- Number of backup hints of a chunk that have not been used, of which there are no more than there
were. -/
def remainingBackups (client : Client σ K) (chunk : Nat) : Outcome Error Nat :=
  match client.consumed[chunk]? with
  | some used => difference client.params.backupsPerChunk used
  | none => .ok 0

/-- Makes a query for an index, with the first hint through it. -/
def select (index : Nat) : Client.Act σ K Query := do
  let client ← current
  if client.pending.isSome then Action.done (.error .queryPending)
  else if client.params.dbSize ≤ index then
    Action.done (.error (.indexOutOfRange index client.params.dbSize))
  else if client.cache.contains index then Action.done (.error (.alreadyCached index))
  else do
    let chunk ← Action.done (quotient index client.params.chunkSize)
    match ← Action.done (firstThrough client.tables index chunk client.params.chunkSize) with
    | some slot => do
      let query : Query := { index, chunk, slot }
      Action.update ({ · with pending := some query })
      return query
    | none => do
      Action.report (.uncovered index chunk)
      Action.done (.error (.hintMiss index))

/-- There has to be a number below the bound of a draw. -/
def randomQuery [RandomSource σ] : Client.Act σ K Query := do
  let client ← current
  let size := client.params.dbSize
  if client.pending.isSome then Action.done (.error .queryPending)
  else if size ≤ client.cache.size then Action.done (.error .allCached)
  else if size = 0 then Action.done (.fault .outOfBounds)
  else do
    let drawn := drawUncached client.cache size drawLimit client.source
    Action.update ({ · with source := drawn.2 })
    match drawn.1 with
    | some index => select index
    | none => Action.done (.fault .endlessDraws)

/-- The hint at the slot of the pending query. -/
def pendingHint (client : Client σ K) (query : Query) : Outcome Error (Hint K) :=
  if client.pending ≠ some query then .error .noPendingQuery
  else do
    match ← entry client.tables.primary query.slot with
    | some hint => return hint
    | none => .error .noPendingQuery

/-- The offsets of the pending query, without the one in its chunk. -/
def prepare (client : Client σ K) (query : Query) : Outcome Error (List Nat) := do
  let hint ← pendingHint client query
  let offsets ← trace hint client.params.chunkCount client.params.chunkSize
  remove offsets query.chunk

/-- Makes a query for an index, as bytes. -/
def query (index : Nat) : Client.Act σ K Bytes := do
  let query ← select index
  let offsets ← Action.read (prepare · query)
  Action.done (encode (offsets.map UInt64.ofNat))

/-- Makes a query for an index that is drawn, as bytes. -/
def randomQueryBytes [RandomSource σ] : Client.Act σ K (Nat × Bytes) := do
  let query ← randomQuery
  let offsets ← Action.read (prepare · query)
  let bytes ← Action.done (encode (offsets.map UInt64.ofNat))
  return (query.index, bytes)

/-- The next backup hint of a chunk, in the table of all backup hints in a row. -/
def nextBackup (client : Client σ K) (chunk used : Nat) : Outcome Error (Slot K) :=
  if used < client.params.backupsPerChunk then do
    let start ← product chunk client.params.backupsPerChunk
    let place ← sum start used
    entry client.tables.backups.flatten place
  else return none

/-- Replaces the hint of a query by the next backup hint of its chunk, or retires it. -/
def refresh (query : Query) (answer : UInt64) : Client.Act σ K Unit := do
  let client ← current
  let used ← Action.done (entry client.consumed query.chunk)
  match ← Action.done (nextBackup client query.chunk used) with
  | some hint => do
    let fresh := (hint.program query.index).xorParity answer
    let rest := client.tables.takeBackup query.chunk used
    let primary ← Action.done (put rest.primary query.slot (some fresh))
    let more ← Action.done (sum used 1)
    let consumed ← Action.done (put client.consumed query.chunk more)
    Action.update ({ · with tables := { rest with primary }, consumed })
  | none => do
    let primary ← Action.done (put client.tables.primary query.slot none)
    Action.update ({ · with tables := { client.tables with primary } })
    Action.report (.exhausted query.chunk query.index)
    Action.done (.error (.backupsExhausted query.chunk query.index))

/-- The word that parities leave for the pending query. They are counted before one of them is
looked up. -/
def answer (client : Client σ K) (query : Query) (parities : List UInt64) :
    Outcome Error UInt64 := do
  let hint ← pendingHint client query
  if parities.length ≠ client.params.chunkCount then
    .error (.parityCount client.params.chunkCount parities.length)
  else do
    let parity ← entry parities query.chunk
    return parity ^^^ hint.parity

/-- Takes parities as the answer to a query: its word is kept, and its hint replaced. -/
def recover (query : Query) (parities : List UInt64) : Client.Act σ K UInt64 := do
  let word ← Action.read (answer · query parities)
  Client.settle query word
  refresh query word
  return word

/-- Takes an answer that came as bytes. -/
def processResponse (response : Bytes) : Client.Act σ K UInt64 := do
  let query ← Action.read Client.pendingQuery
  let parities ← Action.done (decode response)
  recover query parities

/-- Gives up the pending query, and retires its hint. -/
def discard : Client.Act σ K (Option Query) := do
  let client ← current
  match client.pending with
  | none => return none
  | some query => do
    let primary ← Action.done (put client.tables.primary query.slot none)
    Action.update ({ · with pending := none, tables := { client.tables with primary } })
    Action.report (.discarded query.index)
    return some query

/-- Gives up the pending query if the action ends with an error, and passes the error on. -/
def discardOnError (action : Client.Act σ K α) : Client.Act σ K α := do
  match ← action.attempt with
  | .ok value => return value
  | .error cause => do
    let _ ← discard
    Action.done (.error cause)

/-- The word of an index, from the cache or over a transport. -/
def retrieve (index : Nat) (respond : Bytes → Reply Bytes) : Client.Act σ K UInt64 := do
  match ← Action.read fun client => .ok (client.cached index) with
  | some word => return word
  | none => do
    let bytes ← query index
    discardOnError do
      let response ← (respond bytes).toAction
      processResponse response

/-- Builds all hints again. The number of backup hints that is reported has to fit into a word. -/
def rebuild [KeySource σ K] (stream : List Chunk) : Client.Act σ K Unit := do
  let client ← current
  let p := client.params
  let count ← Action.done (product p.backupsPerChunk p.chunkCount)
  let drawn : Tables K × σ := Tables.draw p client.source
  Action.update ({ · with source := drawn.2 })
  let tables ← Action.done (absorbStream p 0 stream drawn.1)
  Action.update ({ · with tables, consumed := List.replicate p.chunkCount 0, pending := none })
  Action.report (.hintsBuilt p.primaryCount count p.chunkCount)

/-- The first build of a session. -/
def setup [KeySource σ K] (params : Params) (source : σ) (stream : List Chunk) :
    Step Error (Client σ K) Unit :=
  (rebuild stream).run { params, source }

/-- An operation as a step of a client. -/
def act [RandomSource σ] [KeySource σ K] : Operation → Client.Act σ K Result
  | .select index => Result.query <$> select index
  | .randomQuery => Result.query <$> randomQuery
  | .query index => Result.bytes <$> query index
  | .randomQueryBytes => (fun found => Result.indexedBytes found.1 found.2) <$> randomQueryBytes
  | .prepare handle => Result.offsets <$> Action.read (prepare · handle)
  | .recover handle parities => Result.word <$> recover handle parities
  | .processResponse response => Result.word <$> processResponse response
  | .retrieve index respond => Result.word <$> retrieve index respond
  | .discard => Result.discarded <$> discard
  | .rebuild stream => (fun _ => Result.rebuilt) <$> rebuild stream

end Client

end PrivateRetrieval.Checked
