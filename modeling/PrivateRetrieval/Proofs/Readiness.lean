/-
A session between two words.

A reader asks for one word at a time, and builds its hints again when none passes through the
index.  In between nothing is pending, and the words that it has kept are just those it has
asked for.  As long as these are fewer than the backup hints of a chunk, every answer of the
right length is taken, and what else may come has few reasons:

* **`Client.Ready`** — what holds of a session between two words (`Client.ready_setup`);
* **`Client.Ready.query_cases`** — the next query is made, or no hint passes through its index;
* **`Client.Ready.rebuild_eq`** — fresh hints over the same chunks change none of this;
* **`Client.Ready.answered`** — an answer is refused, or its word is kept and the session is
  ready again.
-/
import PrivateRetrieval.Proofs.Progress
import PrivateRetrieval.Proofs.Safety

namespace PrivateRetrieval

/-- As many chunks as the parameters say, and each of them as long. -/
structure Params.Matches (p : Params) (stream : List Chunk) : Prop where
  length : stream.length = p.chunkCount
  lengths : ∀ words ∈ stream, words.length = p.chunkSize

variable {σ K : Type} [Prf K]

/-- As many chunks as there have to be are taken in, unless one of them has a wrong length. -/
theorem Tables.absorbStream_of_count {p : Params} (valid : p.Valid) {rest : List Chunk} :
    ∀ {chunk : Nat} (t : Tables K), chunk + rest.length = p.chunkCount →
      (∃ t', t.absorbStream p chunk rest = .ok t')
      ∨ ∃ number found,
        t.absorbStream p chunk rest = .error (.chunkLength number p.chunkSize found) := by
  induction rest with
  | nil =>
    intro chunk t count
    exact .inl ⟨t, if_pos count⟩
  | cons words rest ih =>
    intro chunk t count
    rw [List.length_cons] at count
    rw [absorbStream, if_neg (by omega)]
    by_cases length : words.length = p.chunkSize
    · rw [if_neg (fun differs => differs length), absorb_ok valid]
      exact ih _ (by omega)
    · rw [if_pos length]
      exact .inr ⟨chunk, words.length, rfl⟩

namespace Client

/-- A session that waits for nothing, has kept just the words of the indices in `known`, and has
used no more backup hints of a chunk than that. -/
structure Ready (p : Params) (known : List Nat) (client : Client σ K) : Prop where
  bounded : Checked.Bounded client
  params : client.params = p
  idle : client.pending = none
  cached_iff : ∀ index, (client.cached index).isSome ↔ index ∈ known
  used_le : ∀ chunk, client.used chunk ≤ known.length

variable [KeySource σ K] {p : Params} {known : List Nat} {client : Client σ K} {query : Query}
  {stream : List Chunk}

/-! ### Fresh hints -/

theorem ready_setup {source : σ} (valid : p.Valid) (small : p.dbSize < UInt64.size)
    (counted : p.backupCount < UInt64.size)
    (ready : (setup (K := K) p source stream).outcome = .ok ()) :
    Ready p [] (setup (K := K) p source stream).state ∧ p.Matches stream := by
  have bounded := Checked.bounded_setup valid small counted ready
  obtain ⟨tables, built, left⟩ := setup_of_ok ready
  rw [left] at bounded ⊢
  refine ⟨⟨bounded, rfl, rfl, fun index => ?_, fun chunk => ?_⟩, built.length, built.lengths⟩
  · exact iff_of_false (by rintro ⟨⟩) List.not_mem_nil
  · rw [used_rebuilt]
    exact Nat.zero_le _

/-- A first build of as many chunks as there have to be. -/
theorem setup_cases (source : σ) (valid : p.Valid) (length : stream.length = p.chunkCount) :
    (setup (K := K) p source stream).outcome = .ok ()
      ∨ ∃ chunk found, (setup (K := K) p source stream).outcome
          = .error (.chunkLength chunk p.chunkSize found)
        ∧ (setup (K := K) p source stream).events = [] := by
  have count : 0 + stream.length = p.chunkCount := by rw [Nat.zero_add, length]
  rw [setup, Action.run, rebuild]
  dsimp only
  rcases Tables.absorbStream_of_count valid (Tables.draw (K := K) p source).1 count with
    ⟨tables, read⟩ | ⟨chunk, found, refused⟩
  · rw [read]
    exact .inl rfl
  · rw [refused]
    exact .inr ⟨chunk, found, rfl, rfl⟩

/-- A build that succeeds says so. -/
theorem rebuild_of_ok_events (built : (rebuild stream client).outcome = .ok ()) :
    (rebuild stream client).events
      = [.hintsBuilt client.params.primaryCount client.params.backupCount
          client.params.chunkCount] := by
  unfold rebuild at built ⊢
  dsimp only at built ⊢
  split at built
  · rfl
  · exact absurd built (by simp)
  · exact absurd built (by simp)

/-- Fresh hints over chunks that match. -/
theorem Ready.rebuild_eq (ready : Ready p known client) (whole : p.Matches stream) :
    ∃ next, rebuild stream client
        = ⟨.ok (), next, [.hintsBuilt p.primaryCount p.backupCount p.chunkCount]⟩
      ∧ Ready p known next := by
  obtain ⟨bounded, rfl, idle, cached_iff, used_le⟩ := ready
  have ended : (rebuild stream client).outcome = .ok () :=
    rebuild_ok bounded.consistent.valid whole.length whole.lengths
  obtain ⟨tables, built, left⟩ := rebuild_of_ok ended
  refine ⟨client.rebuilt tables, ?_, ?_, rfl, rfl, cached_iff, fun chunk => ?_⟩
  · rw [← ended, ← left, ← rebuild_of_ok_events ended]
  · have change : Change Peer.any client [.built stream] (client.rebuilt tables) :=
      .rebuild built trivial
    exact bounded.change change
  · rw [used_rebuilt]
    exact Nat.zero_le _

/-! ### Queries -/

/-- To wait for an answer leaves a session within its bounds. -/
theorem Ready.waiting (ready : Ready p known client) (selects : client.Selects query) :
    Checked.Bounded (client.awaiting query) := by
  have change : Change Peer.any client [.selected query] (client.awaiting query) := .select selects
  exact ready.bounded.change change

/-- Of an index of the database whose word is not known, a query is made or no hint passes
through it. -/
theorem Ready.query_cases (ready : Ready p known client) {index : Nat} (inDb : index < p.dbSize)
    (fresh : index ∉ known) :
    (∃ query offsets, client.Selects query ∧ query.index = index
      ∧ (client.awaiting query).prepare query = .ok offsets
      ∧ Client.query index client = ⟨.ok (encodeOffsets offsets), client.awaiting query, []⟩)
    ∨ Client.query index client
        = ⟨.error (.hintMiss index), client, [.uncovered index (p.chunkOf index)]⟩ := by
  have waiting {query : Query} (selects : client.Selects query) := ready.waiting selects
  obtain ⟨bounded, rfl, idle, cached_iff, -⟩ := ready
  have unknown : client.cached index = none := by
    rw [← Option.not_isSome_iff_eq_none, cached_iff]
    exact fresh
  have eq := select_of_unknown idle inDb unknown bounded.consistent.valid.chunkSize_pos
  -- None of the guards in front of the search applies, so that only a miss is left.
  cases hit : client.tables.firstThrough index (client.params.chunkOf index)
      client.params.chunkSize with
  | some slot =>
    rw [hit] at eq
    have selected := congrArg Step.outcome eq
    obtain ⟨selects, -, -⟩ := select_of_ok selected
    obtain ⟨offsets, prepared⟩ :=
      (waiting selects).consistent.prepare_ok (client.pending_awaiting _)
    refine .inl ⟨_, offsets, selects, rfl, prepared, ?_⟩
    rw [query_of_select_ok selected, prepared]
    rfl
  | none =>
    rw [hit] at eq
    refine .inr ?_
    rw [Client.query, Action.bind_of_error (congrArg Step.outcome eq), eq]

/-! ### Answers -/

/-- The reasons for which an answer to a pending query is refused. -/
def RefusesAnswer (p : Params) (cause : Error) : Prop :=
  (∃ why, cause = .undecodable why) ∨ ∃ found, cause = .parityCount p.chunkCount found

omit [KeySource σ K] in
/-- Bytes are refused, or carry parities that leave a word. -/
theorem Consistent.processResponse_cases (consistent : client.Consistent)
    (pending : client.pending = some query) (response : Bytes) :
    (∃ cause, RefusesAnswer client.params cause
      ∧ processResponse response client = ⟨.error cause, client, []⟩)
    ∨ ∃ parities word, Words.decode response = .ok parities
      ∧ client.answer query parities = .ok word
      ∧ processResponse response client = recover query parities client := by
  have eq := processResponse_of_pending pending response
  cases decoded : Words.decode response with
  | error cause =>
    rw [decoded] at eq
    exact .inl ⟨cause, .inl (Words.undecodable_of_error decoded), eq⟩
  | ok parities =>
    rw [decoded] at eq
    have awaits := consistent.awaits pending
    by_cases length : parities.length = client.params.chunkCount
    · obtain ⟨word, leaves⟩ := awaits.leaves consistent.valid length
      exact .inr ⟨parities, word, rfl, leaves.answer pending length, eq⟩
    · obtain ⟨hint, held, -⟩ := awaits.held
      have refused := recover_of_error (answer_of_miscount pending held length)
      exact .inl ⟨_, .inr ⟨parities.length, rfl⟩, eq.trans refused⟩

theorem Ready.answered (ready : Ready p known client) (selects : client.Selects query)
    (left : known.length < p.backupsPerChunk) (response : Bytes) :
    (∃ cause, RefusesAnswer p cause
      ∧ processResponse response (client.awaiting query)
        = ⟨.error cause, client.awaiting query, []⟩)
    ∨ ∃ word next, processResponse response (client.awaiting query) = ⟨.ok word, next, []⟩
      ∧ next.cached query.index = some word ∧ Ready p (known ++ [query.index]) next := by
  have waiting := ready.waiting selects
  obtain ⟨bounded, rfl, idle, cached_iff, used_le⟩ := ready
  have pending := client.pending_awaiting query
  rcases waiting.consistent.processResponse_cases pending response with
    refused | ⟨parities, word, -, answered, eq⟩
  · exact .inl refused
  -- Every chunk has used fewer backup hints than it has.
  have within := selects.awaits.chunk_lt bounded.consistent.valid
  obtain ⟨hint, next⟩ := waiting.consistent.nextBackup_ok within
    (Nat.lt_of_le_of_lt (used_le query.chunk) left)
  rw [recover_of_answer answered, next] at eq
  have taken : Change Peer.any (client.awaiting query) [.refreshed query _]
      ((client.awaiting query).refreshed query word hint _) := .refresh pending next trivial
  refine .inr ⟨word, _, eq, (Cache.get?_insert ..).trans (if_pos rfl), waiting.change taken, rfl,
    rfl, fun index => ?_, fun chunk => ?_⟩
  · rw [List.mem_append, List.mem_singleton, ← cached_iff index]
    refine (iff_of_eq (congrArg (Option.isSome · = true) (Cache.get?_insert ..))).trans ?_
    by_cases own : index = query.index
    · rw [if_pos own]
      exact iff_of_true rfl (.inr own)
    · rw [if_neg own]
      exact ⟨.inl, fun either => either.resolve_right own⟩
  · have counted : query.chunk < (client.awaiting query).consumed.length := by
      rw [waiting.consistent.consumed_length]
      exact within
    rw [used_refreshed counted, List.length_append, List.length_singleton]
    have before := used_le chunk
    split
    · exact Nat.succ_le_succ before
    · exact Nat.le_succ_of_le before

end Client

end PrivateRetrieval
