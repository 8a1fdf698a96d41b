/-
The parity ledger.

A server may answer with any parities, so no parity of a session need be that of
a trace.  What holds instead accounts for every hint by the chunks that were
read and by the words that were kept:

* **`Client.Ledger`** — a backup hint lacks the chunk of its group; a primary hint
  has its whole trace, where a programmed one counts the kept word in place of
  the true one;
* **`Client.Change.ledger`**, **`Client.Path.ledger`** — every change keeps the ledger
  of the chunks read last;
* **`Client.answer_of_truth`** — from a truthful answer a free hint leaves the true
  word, and a programmed hint the true word with the error of its own point.

So a wrong answer stays where it was kept: it reaches other words only through
the one hint that was programmed with it.
-/
import PrivateRetrieval.Proofs.Consistency
import PrivateRetrieval.Proofs.Window

namespace PrivateRetrieval

variable {σ K : Type}

/-- The word of an index in a stream of chunks. -/
def Params.wordOf (p : Params) (stream : List Chunk) (index : Nat) : UInt64 :=
  wordIn stream (p.chunkOf index) (p.offsetInChunk index)

/-- The stream that was read into fresh tables last, given the one before. -/
def Milestone.latest (stream : List Chunk) : (history : List Milestone) → List Chunk
  | [] => stream
  | .built fresh :: rest => latest fresh rest
  | _ :: rest => latest stream rest

theorem Milestone.latest_append (stream : List Chunk) (earlier later : List Milestone) :
    latest stream (earlier ++ later) = latest (latest stream earlier) later := by
  induction earlier generalizing stream with
  | nil => rfl
  | cons mark rest ih => cases mark <;> exact ih _

variable [Prf K]

namespace Client

/-- Every parity accounted for by the chunks of a stream and the kept words. -/
structure Ledger (stream : List Chunk) (client : Client σ K) : Prop where
  /-- There are as many chunks, of as many words, as the parameters say. -/
  length : stream.length = client.params.chunkCount
  lengths : ∀ words ∈ stream, words.length = client.params.chunkSize
  /-- A backup hint is free and lacks the chunk of its group. -/
  backup : ∀ {group position hint}, client.tables.backup? group position = some hint →
    hint.point = none
    ∧ hint.parity
      = xorExcept (hint.wordOn stream client.params.chunkSize) client.params.chunkCount group
  /-- A free primary hint has the words of its trace. -/
  free : ∀ {slot hint}, client.tables.hint? slot = some hint → hint.point = none →
    hint.parity = xorBelow (hint.wordOn stream client.params.chunkSize) client.params.chunkCount
  /-- A programmed hint has the word that was kept in place of the one at its point. -/
  programmed : ∀ {slot hint point}, client.tables.hint? slot = some hint →
    hint.point = some point →
    point < client.params.dbSize ∧ ∃ kept, client.cached point = some kept
      ∧ hint.parity
        = xorExcept (hint.wordOn stream client.params.chunkSize) client.params.chunkCount
            (client.params.chunkOf point) ^^^ kept

variable {client : Client σ K} {query : Query} {stream : List Chunk}

/-- The accounts of a slot do not depend on how many other words are kept. -/
theorem Ledger.programmed_insert (ledger : client.Ledger stream) {index : Nat} {word : UInt64}
    (fresh : client.cached index = none) {slot point : Nat} {hint : Hint K}
    (held : client.tables.hint? slot = some hint) (pinned : hint.point = some point) :
    point < client.params.dbSize ∧ ∃ kept, (client.cache.insert index word).get? point = some kept
      ∧ hint.parity
        = xorExcept (hint.wordOn stream client.params.chunkSize) client.params.chunkCount
            (client.params.chunkOf point) ^^^ kept := by
  obtain ⟨inRange, kept, known, parity⟩ := ledger.programmed held pinned
  refine ⟨inRange, kept, ?_, parity⟩
  have elsewhere : point ≠ index := by
    rintro rfl
    exact absurd (known.symm.trans fresh) (by simp)
  rw [Cache.get?_insert, if_neg elsewhere]
  exact known

/-- A backup hint that is programmed at an index of its chunk, with a word for it. -/
theorem parity_program {hint : Hint K} {index : Nat} {word : UInt64} {p : Params}
    (free : hint.point = none)
    (parity : hint.parity
      = xorExcept (hint.wordOn stream p.chunkSize) p.chunkCount (p.chunkOf index)) :
    ((hint.program index).xorParity word).parity
      = xorExcept (((hint.program index).xorParity word).wordOn stream p.chunkSize) p.chunkCount
          (p.chunkOf index) ^^^ word := by
  refine congrArg (· ^^^ word) (parity.trans (xorExcept_congr fun chunk _ elsewhere => ?_))
  rw [Hint.wordOn, Hint.wordOn, Hint.offsetAt_xorParity, Hint.offsetAt_program,
    Hint.offsetAt_of_unprogrammed free, if_neg]
  exact fun same => elsewhere same.symm

variable [KeySource σ K]

theorem ledger_rebuilt {tables : Tables K}
    (built : tables.Built client.params client.source stream) :
    (client.rebuilt tables).Ledger stream where
  length := built.length
  lengths := built.lengths
  backup held := ⟨congrArg Hint.point (built.bare_backup held), built.covers.backup held⟩
  free held _ := built.covers.primary held
  programmed held pinned := by
    have free := congrArg Hint.point (built.bare_hint held)
    exact absurd (pinned.symm.trans free) (by simp)

omit [KeySource σ K] in
/-- The backup hint that is put in place of a used one is programmed with the word that
is kept, right or wrong. -/
theorem ledger_refreshed (consistent : client.Consistent) (ledger : client.Ledger stream)
    (pending : client.pending = some query) {hint : Hint K} {position : Nat}
    (next : client.nextBackup query.chunk = some (hint, position)) (word : UInt64) :
    (client.refreshed query word hint position).Ledger stream := by
  have awaits := consistent.awaits pending
  obtain ⟨used, held, -⟩ := awaits.held
  obtain ⟨-, -, there⟩ := nextBackup_of_some next
  obtain ⟨unpinned, parity⟩ := ledger.backup there
  rw [awaits.chunk] at parity
  refine ⟨ledger.length, ledger.lengths, ?_, ?_, ?_⟩
  · intro group place backup live
    exact ledger.backup (Tables.backup?_of_takeBackup live)
  · intro slot other live free
    rw [hint?_refreshed held] at live
    split at live
    · cases live
      exact absurd free (by simp [Hint.program, Hint.xorParity])
    · exact ledger.free live free
  · intro slot other point live pinned
    rw [hint?_refreshed held] at live
    split at live
    · cases live
      obtain rfl : query.index = point := Option.some.inj pinned
      refine ⟨awaits.inRange, word, ?_, parity_program unpinned parity⟩
      exact (Cache.get?_insert ..).trans (if_pos rfl)
    · -- A hint programmed earlier relies on a word that was kept under another index.
      exact ledger.programmed_insert awaits.fresh live pinned

omit [KeySource σ K] in
theorem ledger_spent (consistent : client.Consistent) (ledger : client.Ledger stream)
    (pending : client.pending = some query) (word : UInt64) :
    (client.spent query word).Ledger stream := by
  have fresh := (consistent.awaits pending).fresh
  refine ⟨ledger.length, ledger.lengths, ledger.backup, ?_, ?_⟩
  · intro slot hint live free
    exact ledger.free (Tables.hint?_of_retire live) free
  · intro slot hint point live pinned
    exact ledger.programmed_insert fresh (Tables.hint?_of_retire live) pinned

theorem Change.ledger {peer : Peer σ K} {after : Client σ K} {marks : List Milestone}
    (change : Change peer client marks after) (consistent : client.Consistent)
    (ledger : client.Ledger stream) : after.Ledger (Milestone.latest stream marks) := by
  cases change with
  | draw source =>
    exact ⟨ledger.length, ledger.lengths, ledger.backup, ledger.free, ledger.programmed⟩
  | select selects =>
    exact ⟨ledger.length, ledger.lengths, ledger.backup, ledger.free, ledger.programmed⟩
  | refresh pending next left => exact ledger_refreshed consistent ledger pending next _
  | exhaust pending next left => exact ledger_spent consistent ledger pending _
  | discard pending =>
    refine ⟨ledger.length, ledger.lengths, ledger.backup, ?_, ?_⟩
    · intro slot hint live free
      exact ledger.free (Tables.hint?_of_retire live) free
    · intro slot hint point live pinned
      exact ledger.programmed (Tables.hint?_of_retire live) pinned
  | rebuild built sent => exact ledger_rebuilt built

theorem Path.ledger {peer : Peer σ K} {first last : Client σ K} {history : List Milestone}
    (path : Path peer first history last) : ∀ {stream : List Chunk}, first.Consistent →
      first.Ledger stream → last.Ledger (Milestone.latest stream history) := by
  induction path with
  | nil => exact fun _ ledger => ledger
  | cons change _ ih =>
    intro stream consistent ledger
    rw [Milestone.latest_append]
    exact ih (change.consistent consistent) (change.ledger consistent ledger)

/-! ### Truthful answers -/

omit [KeySource σ K] in
/-- A server with the chunks of the ledger cuts its database as the client does. -/
theorem Ledger.same_chunks {s : Server} (ledger : client.Ledger s.chunks)
    (valid : client.params.Valid) : s.params.chunkCount = client.params.chunkCount
      ∧ s.params.chunkSize = client.params.chunkSize := by
  have count : s.params.chunkCount = client.params.chunkCount := by
    rw [← s.length_chunks, ledger.length]
  refine ⟨count, ?_⟩
  have streamed : 0 < s.chunks.length := by
    rw [ledger.length]
    exact valid.chunkCount_pos
  have first := List.getElem_mem streamed
  rw [← s.length_of_mem_chunks first, ledger.lengths _ first]

omit [KeySource σ K] in
/-- What a hint meets in the chunk of an index that its trace passes through. -/
theorem wordOn_of_offsetAt {hint : Hint K} {p : Params} {chunk index : Nat}
    (chunk_eq : chunk = p.chunkOf index)
    (offset : hint.offsetAt chunk p.chunkSize = index % p.chunkSize) :
    hint.wordOn stream p.chunkSize chunk = p.wordOf stream index := by
  rw [Hint.wordOn, offset, chunk_eq]
  rfl

omit [KeySource σ K] in
/-- What a server tells of a trace without one chunk is the parity of the words that the hint meets
in all others. -/
theorem Ledger.told {s : Server} (ledger : client.Ledger s.chunks) (valid : client.params.Valid)
    (hint : Hint K) {chunk : Nat} (within : chunk < client.params.chunkCount) :
    ∃ parities, (s.process ((hint.trace client.params.chunkCount
        client.params.chunkSize).eraseIdx chunk)).result = .ok parities
      ∧ parities.length = client.params.chunkCount
      ∧ parities[chunk]? = some (xorExcept (hint.wordOn s.chunks client.params.chunkSize)
          client.params.chunkCount chunk) := by
  obtain ⟨count, size⟩ := ledger.same_chunks valid
  have below (other : Nat) : hint.offsetAt other client.params.chunkSize < s.params.chunkSize := by
    rw [size]
    exact hint.offsetAt_lt valid.chunkSize_pos other
  obtain ⟨parities, told, length, here⟩ :=
    s.process_eraseIdx (count ▸ within : chunk < s.params.chunkCount) below
  rw [count] at told length here
  refine ⟨parities, told, length, here.trans (congrArg some ?_)⟩
  exact xorExcept_congr fun other inside _ =>
    (s.wordIn_chunks (count ▸ inside) (below other)).symm

omit [KeySource σ K] in
theorem answer_of_truth (consistent : client.Consistent) {s : Server}
    (ledger : client.Ledger s.chunks) (pending : client.pending = some query) :
    ∃ hint offsets parities word, client.tables.hint? query.slot = some hint
      ∧ client.prepare query = .ok offsets
      ∧ (s.process offsets).result = .ok parities
      ∧ client.answer query parities = .ok word
      ∧ (hint.point = none → word = client.params.wordOf s.chunks query.index)
      ∧ ∀ point, hint.point = some point → ∃ kept, client.cached point = some kept
        ∧ word = client.params.wordOf s.chunks query.index
            ^^^ client.params.wordOf s.chunks point ^^^ kept := by
  have awaits := consistent.awaits pending
  obtain ⟨hint, held, through⟩ := awaits.held
  have pos := consistent.valid.chunkSize_pos
  have within := awaits.chunk_lt consistent.valid
  obtain ⟨parities, told, length, here⟩ := ledger.told consistent.valid hint within
  have own : hint.wordOn s.chunks client.params.chunkSize query.chunk
      = client.params.wordOf s.chunks query.index :=
    wordOn_of_offsetAt awaits.chunk (Hint.offsetAt_of_elementAt through pos)
  refine ⟨hint, _, parities, _, held, prepare_of_pending pending held pos within, told,
    answer_of_pending pending held length here, ?_, ?_⟩
  · -- The server has left out of its candidate the one word that the hint is asked for.
    intro free
    rw [ledger.free held free, xorBelow_eq_xorExcept within, ← UInt64.xor_assoc,
      UInt64.xor_self, UInt64.zero_xor, own]
  · -- The parity of this hint has another word left out, and holds the word that was kept for it.
    intro point pinned
    obtain ⟨inRange, kept, known, parity⟩ := ledger.programmed held pinned
    have at_point : hint.wordOn s.chunks client.params.chunkSize (client.params.chunkOf point)
        = client.params.wordOf s.chunks point := by
      refine wordOn_of_offsetAt rfl ?_
      rw [Hint.offsetAt, pinned]
      exact if_pos rfl
    refine ⟨kept, known, ?_⟩
    rw [parity, ← UInt64.xor_assoc,
      xorExcept_xor_xorExcept within (consistent.valid.chunkOf_lt inRange), own, at_point]

/-- An answer that leaves `word` for the pending query: the word is kept, also
where no backup hint is left. -/
structure Recovers (client : Client σ K) (query : Query) (parities : List UInt64) (word : UInt64) :
    Prop where
  outcome : (recover query parities client).outcome = .ok word
    ∨ (recover query parities client).outcome = .error (.backupsExhausted query.chunk query.index)
  kept : (recover query parities client).state.cached query.index = some word

omit [Prf K] [KeySource σ K] in
theorem recovers_of_answer {parities : List UInt64} {word : UInt64}
    (h : client.answer query parities = .ok word) : client.Recovers query parities word := by
  have inserted : (client.cache.insert query.index word).get? query.index = some word :=
    (Cache.get?_insert ..).trans (if_pos rfl)
  have eq := recover_of_answer h
  cases next : client.nextBackup query.chunk with
  | some found =>
    rw [next] at eq
    exact ⟨.inl (congrArg Step.outcome eq), by rw [eq]; exact inserted⟩
  | none =>
    rw [next] at eq
    exact ⟨.inr (congrArg Step.outcome eq), by rw [eq]; exact inserted⟩

/-- **The parity ledger.**  Whatever is asked of a session and whatever the server
answers, every parity is accounted for by the chunks read last and the words that
were kept.  So a truthful answer leaves the true word from a free hint, and from a
programmed one the true word with the error that was kept at its point. -/
theorem parity_ledger [RandomSource σ] {size : Nat} {p : Params} (derived : p.Derived size)
    {source : σ} {stream : List Chunk}
    (ready : (setup (K := K) p source stream).outcome = .ok ()) (run : List Operation) :
    let start := (setup (K := K) p source stream).state
    let last := start.after run
    let current := Milestone.latest stream (start.history run)
    last.params = p ∧ last.Ledger current
      ∧ ∀ (query : Query) (s : Server), last.pending = some query → s.chunks = current →
        ∃ hint offsets parities word, last.tables.hint? query.slot = some hint
          ∧ last.prepare query = .ok offsets
          ∧ (s.process offsets).result = .ok parities
          ∧ last.Recovers query parities word
          ∧ (hint.point = none → word = p.wordOf current query.index)
          ∧ ∀ point, hint.point = some point → ∃ kept, last.cached point = some kept
            ∧ word = p.wordOf current query.index ^^^ p.wordOf current point ^^^ kept := by
  intro start last current
  have consistent : start.Consistent := consistent_setup derived.valid ready
  have ledger : start.Ledger stream := by
    obtain ⟨tables, built, left⟩ := setup_of_ok ready
    exact (congrArg (Ledger stream) left).mpr (ledger_rebuilt built)
  -- Whatever the answers were, the ledger is kept up to the last stream.
  have path : Path Peer.any start (start.history run) last := path_any start run
  have same : last.params = p := (params_after start run).trans (setup_params ready)
  have accounted : last.Ledger current := path.ledger consistent ledger
  refine ⟨same, accounted, fun query s pending chunks => ?_⟩
  obtain ⟨hint, offsets, parities, word, held, prepared, told, left, free, pinned⟩ :=
    answer_of_truth (consistent_after consistent run) (chunks ▸ accounted) pending
  rw [same, chunks] at free
  refine ⟨hint, offsets, parities, word, held, prepared, told, recovers_of_answer left, free, ?_⟩
  intro point at_point
  have left := pinned point at_point
  rwa [same, chunks] at left

/-- A wrong answer for index 0 is kept as 34 in place of 10.  The hint programmed with
it passes through index 2, and the truthful answer there is off by the same bits. -/
theorem parity_ledger_wrong_answer :
    let last := Small.client.after [.select 0, .recover ⟨0, 0, 0⟩ [0, 0], .select 2]
    last.pending = some ⟨2, 1, 0⟩ ∧ last.cached 0 = some 34
      ∧ ∃ parities, (Small.server.process [0]).result = .ok parities
        ∧ last.Recovers ⟨2, 1, 0⟩ parities (30 ^^^ 10 ^^^ 34) := by
  intro last
  have pending : last.pending = some ⟨2, 1, 0⟩ := by decide
  have kept : last.cached 0 = some 34 := by decide
  obtain ⟨-, -, consequence⟩ := parity_ledger Small.derived Small.setup_ok
    [.select 0, .recover ⟨0, 0, 0⟩ [0, 0], .select 2]
  obtain ⟨hint, offsets, parities, word, held, prepared, told, recovers, -, pinned⟩ :=
    consequence ⟨2, 1, 0⟩ Small.server pending (by decide)
  have held' : last.tables.hint? 0 = some ⟨⟨[0, 0]⟩, 60, some 0⟩ := by decide
  have prepared' : last.prepare ⟨2, 1, 0⟩ = .ok [0] := by decide
  cases Option.some.inj (held.symm.trans held')
  cases Outcome.ok.inj (prepared.symm.trans prepared')
  obtain ⟨other, known, word_eq⟩ := pinned 0 rfl
  cases Option.some.inj (known.symm.trans kept)
  refine ⟨pending, kept, parities, told, ?_⟩
  rw [word_eq] at recovers
  exact recovers

end Client

end PrivateRetrieval
