/-
Points of programmed hints.

After an answer the used hint is replaced by one that is programmed at the index
just retrieved, so that later queries travel on traces that pass through known
indices.  That does no harm, for a hint is never asked for its own point:

* **`Client.Pinned`** — the points of live hints are known indices, no two hints have
  one point, and backup hints have none (`Client.Change.apart`);
* **`Client.Punctures`** — what a query takes out of the trace of its hint: the offset
  of the key, at an index that is not known;
* **`Client.points_harmless`** — all this in every reachable state.
-/
import PrivateRetrieval.Proofs.Ledger

namespace PrivateRetrieval

variable {σ K : Type} [Prf K]

/-- A hint follows its key in every chunk but that of its point. -/
theorem Hint.offsetAt_of_elsewhere {hint : Hint K} {chunk chunkSize : Nat}
    (elsewhere : ∀ {point}, hint.point = some point → point / chunkSize ≠ chunk) :
    hint.offsetAt chunk chunkSize = keyOffset hint.key chunk chunkSize := by
  cases pinned : hint.point with
  | none => exact offsetAt_of_unprogrammed pinned chunk chunkSize
  | some point =>
    rw [offsetAt, pinned]
    exact if_neg (elsewhere pinned)

theorem Hint.elementAt_of_point {hint : Hint K} {point chunk chunkSize : Nat}
    (pinned : hint.point = some point) (inside : point / chunkSize = chunk) :
    hint.elementAt chunk chunkSize = point := by
  rw [elementAt, pinned]
  exact if_pos inside

namespace Client

/-- Two live hints with one point are in one slot. -/
def Apart (client : Client σ K) : Prop :=
  ∀ {slot slot' hint hint' point}, client.tables.hint? slot = some hint →
    client.tables.hint? slot' = some hint' → hint.point = some point →
    hint'.point = some point → slot = slot'

/-- Where the points of a session lie. -/
structure Pinned (client : Client σ K) : Prop where
  /-- A point is an index of the database, and its word is known. -/
  known : ∀ {slot hint point}, client.tables.hint? slot = some hint → hint.point = some point →
    point < client.params.dbSize ∧ (client.cached point).isSome
  apart : client.Apart
  /-- A backup hint that has not been taken is not programmed. -/
  backup : ∀ {group position hint}, client.tables.backup? group position = some hint →
    hint.point = none

/-- What a pending query takes out of the trace of its hint. -/
structure Punctures (client : Client σ K) (query : Query) (hint : Hint K) : Prop where
  held : client.tables.hint? query.slot = some hint
  /-- All of the trace is sent but the entry of the queried chunk. -/
  sent : client.prepare query = .ok ((hint.trace client.params.chunkCount
    client.params.chunkSize).eraseIdx query.chunk)
  /-- That entry is the offset of the key, and the one at which the index lies. -/
  removed : (hint.trace client.params.chunkCount client.params.chunkSize)[query.chunk]?
    = some (Hint.keyOffset hint.key query.chunk client.params.chunkSize)
  offset : Hint.keyOffset hint.key query.chunk client.params.chunkSize
    = client.params.offsetInChunk query.index
  /-- The index has not been retrieved, and the point of the hint is in another chunk. -/
  unknown : client.cached query.index = none
  elsewhere : ∀ {point}, hint.point = some point → client.params.chunkOf point ≠ query.chunk

variable {client : Client σ K} {query : Query} {stream : List Chunk}

/-! ### Points stay apart -/

section Apart

variable [KeySource σ K]

omit [KeySource σ K] in
/-- A new point is the index of a query, and that was not known while older points were. -/
theorem apart_refreshed (consistent : client.Consistent) (ledger : client.Ledger stream)
    (apart : client.Apart) (pending : client.pending = some query) (word : UInt64)
    (hint : Hint K) (position : Nat) : (client.refreshed query word hint position).Apart := by
  have awaits := consistent.awaits pending
  obtain ⟨used, held, -⟩ := awaits.held
  -- The word of a pending query is not known, and those of the points are.
  have older {slot : Nat} {other : Hint K} (live : client.tables.hint? slot = some other) :
      other.point ≠ some query.index := by
    intro pinned
    obtain ⟨-, kept, known, -⟩ := ledger.programmed live pinned
    exact absurd (known.symm.trans awaits.fresh) (by simp)
  have fresh : ((hint.program query.index).xorParity word).point = some query.index := rfl
  intro slot slot' first second point live live' pinned pinned'
  rw [hint?_refreshed held] at live live'
  split at live
  · cases live
    cases fresh.symm.trans pinned
    split at live'
    · rename_i own own'
      rw [own, own']
    · exact absurd pinned' (older live')
  · split at live'
    · cases live'
      cases fresh.symm.trans pinned'
      exact absurd pinned (older live)
    · exact apart live live' pinned pinned'

omit [Prf K] [KeySource σ K] in
theorem apart_of_retire {last : Client σ K} {slot : Nat} (apart : client.Apart)
    (tables : last.tables = client.tables.retire slot) : last.Apart := by
  intro first second hint hint' point live live'
  rw [tables] at live live'
  exact apart (Tables.hint?_of_retire live) (Tables.hint?_of_retire live')

/-- Fresh hints have no points. -/
theorem apart_rebuilt {tables : Tables K}
    (built : tables.Built client.params client.source stream) : (client.rebuilt tables).Apart := by
  intro slot slot' hint hint' point live live' pinned
  have free := congrArg Hint.point (built.bare_hint live)
  exact absurd (pinned.symm.trans free) (by simp)

theorem Change.apart {peer : Peer σ K} {after : Client σ K} {marks : List Milestone}
    (change : Change peer client marks after) (consistent : client.Consistent)
    (ledger : client.Ledger stream) (apart : client.Apart) : after.Apart := by
  cases change with
  | draw source => exact apart
  | select selects => exact apart
  | refresh pending next left => exact apart_refreshed consistent ledger apart pending _ _ _
  | exhaust pending next left => exact apart_of_retire apart rfl
  | discard pending => exact apart_of_retire apart rfl
  | rebuild built sent => exact apart_rebuilt built

theorem Path.apart {peer : Peer σ K} {first last : Client σ K} {history : List Milestone}
    (path : Path peer first history last) : ∀ {stream : List Chunk}, first.Consistent →
      first.Ledger stream → first.Apart → last.Apart := by
  induction path with
  | nil => exact fun _ _ apart => apart
  | cons change _ ih =>
    intro stream consistent ledger apart
    exact ih (change.consistent consistent) (change.ledger consistent ledger)
      (change.apart consistent ledger apart)

end Apart

theorem Ledger.pinned (ledger : client.Ledger stream) (apart : client.Apart) : client.Pinned where
  known held pinned := by
    obtain ⟨inRange, kept, known, -⟩ := ledger.programmed held pinned
    exact ⟨inRange, Option.isSome_of_eq_some known⟩
  apart := apart
  backup held := (ledger.backup held).1

/-! ### Punctures miss the point -/

/-- The hint of a pending query passes through its index, so a point in that chunk would
be the index, which is not known. -/
theorem Pinned.elsewhere (pinned : client.Pinned) (fresh : client.cached query.index = none)
    {hint : Hint K} (held : client.tables.hint? query.slot = some hint)
    (through : hint.elementAt query.chunk client.params.chunkSize = query.index) {point : Nat}
    (at_point : hint.point = some point) : client.params.chunkOf point ≠ query.chunk := by
  intro inside
  have index : point = query.index := (Hint.elementAt_of_point at_point inside).symm.trans through
  have known := (pinned.known held at_point).2
  rw [index, fresh] at known
  exact absurd known (by simp)

theorem Pinned.punctures (pinned : client.Pinned) (consistent : client.Consistent)
    (pending : client.pending = some query) : ∃ hint, client.Punctures query hint := by
  have awaits := consistent.awaits pending
  obtain ⟨hint, held, through⟩ := awaits.held
  have pos := consistent.valid.chunkSize_pos
  have within := awaits.chunk_lt consistent.valid
  have elsewhere {point : Nat} (at_point : hint.point = some point) :=
    pinned.elsewhere awaits.fresh held through at_point
  have keyed : hint.offsetAt query.chunk client.params.chunkSize
      = Hint.keyOffset hint.key query.chunk client.params.chunkSize :=
    Hint.offsetAt_of_elsewhere elsewhere
  refine ⟨hint, held, prepare_of_pending pending held pos within, ?_, ?_, awaits.fresh, elsewhere⟩
  · rw [Hint.trace, List.getElem?_map, List.getElem?_range within, Option.map_some, keyed]
  · rw [← keyed, Hint.offsetAt_of_elementAt through pos]
    rfl

/-- **Points are harmless.**  Whatever is asked of a session and whatever the server
answers, no query takes a point out of the trace of its hint. -/
theorem points_harmless [KeySource σ K] [RandomSource σ] {size : Nat} {p : Params}
    (derived : p.Derived size) {source : σ} {stream : List Chunk}
    (ready : (setup (K := K) p source stream).outcome = .ok ()) (run : List Operation) :
    let last := (setup (K := K) p source stream).state.after run
    last.params = p ∧ last.Pinned
      ∧ (∀ query, last.pending = some query → ∃ hint, last.Punctures query hint)
      ∧ ∀ index query, (select index last).outcome = .ok query →
        query.index = index ∧ query.chunk = p.chunkOf index
          ∧ ∃ hint, last.tables.hint? query.slot = some hint
            ∧ (select index last).state.Punctures query hint := by
  intro last
  obtain ⟨tables, built, left⟩ := setup_of_ok ready
  have reached : last.Consistent ∧ last.Pinned := by
    have consistent := consistent_setup derived.valid ready
    have ledger : (setup (K := K) p source stream).state.Ledger stream :=
      (congrArg (Ledger stream) left).mpr (ledger_rebuilt built)
    have apart : (setup (K := K) p source stream).state.Apart :=
      (congrArg Apart left).mpr (apart_rebuilt built)
    have path := path_any (setup (K := K) p source stream).state run
    exact ⟨path.invariant Change.consistent consistent,
      (path.ledger consistent ledger).pinned (path.apart consistent ledger apart)⟩
  obtain ⟨consistent, pinned⟩ := reached
  have same : last.params = p := (params_after _ run).trans (setup_params ready)
  refine ⟨same, pinned, fun query pending => pinned.punctures consistent pending, ?_⟩
  intro index query selected
  obtain ⟨selects, index_eq, eq⟩ := select_of_ok selected
  have change : Change Peer.any last [.selected query] (last.awaiting query) := .select selects
  -- A selection leaves the hints and the cache as they are.
  have waiting : (last.awaiting query).Pinned := ⟨pinned.known, pinned.apart, pinned.backup⟩
  obtain ⟨hint, punctures⟩ := waiting.punctures (change.consistent consistent) rfl
  have chunk := selects.chunk
  rw [index_eq, same] at chunk
  refine ⟨index_eq, chunk, hint, punctures.held, ?_⟩
  rw [eq]
  exact punctures

/-- The hint that was programmed at index 0 serves index 2, in the other chunk: what is
taken out of its trace is the offset of its key there. -/
theorem points_harmless_of_programmed_hint :
    let last := Small.client.after [.select 0, .recover ⟨0, 0, 0⟩ [0, 0]]
    (select 2 last).outcome = .ok ⟨2, 1, 0⟩
      ∧ ∃ hint, last.tables.hint? 0 = some hint ∧ hint.point = some 0
        ∧ Small.params.chunkOf 0 ≠ 1
        ∧ (hint.trace 2 2)[1]? = some (Hint.keyOffset hint.key 1 2) := by
  intro last
  have selected : (select 2 last).outcome = .ok ⟨2, 1, 0⟩ := by decide
  obtain ⟨-, -, -, harmless⟩ := points_harmless Small.derived Small.setup_ok
    [.select 0, .recover ⟨0, 0, 0⟩ [0, 0]]
  obtain ⟨-, -, hint, held, punctures⟩ := harmless 2 ⟨2, 1, 0⟩ selected
  have held' : last.tables.hint? 0 = some ⟨⟨[0, 0]⟩, 60, some 0⟩ := by decide
  have programmed : hint.point = some 0 :=
    congrArg Hint.point (Option.some.inj (held.symm.trans held'))
  exact ⟨selected, hint, held, programmed, punctures.elsewhere programmed, punctures.removed⟩

end Client

end PrivateRetrieval
