/-
The offline phase: which streams are accepted, and which hint gets which key.

A stream is checked while it is read, so it is refused for the first thing that is wrong with
it.  The keys are drawn before anything is known of the stream.  A build that fails has
therefore used up as many of them as one that succeeds, and the next build goes on from there:

* **`Params.Refuses`** — the first thing that is wrong with a stream; if there is none, the
  stream matches (`Params.matches_or_refuses`);
* **`Client.Builds`** — the outcome of a build is told by the stream alone, and what it leaves is
  told by the outcome (`Client.builds_rebuild`);
* **`Client.InBlocks`** — all keys that a session ever draws are drawn by its builds, each of
  which takes the next block of them (`Client.inBlocks_setup`);
* **`Client.offline_phase`** — all of this for all parameters, sources and streams.
-/
import PrivateRetrieval.Proofs.Readiness
import PrivateRetrieval.Proofs.Sources

namespace PrivateRetrieval

/-! ### Streams -/

namespace Params

/-- The first thing that is wrong with a stream, in the order in which it is read: all chunks in
front of it are as long as they have to be. -/
inductive Refuses (p : Params) (stream : List Chunk) : Error → Prop where
  /-- A chunk that is expected, and is of another length. -/
  | length {front rest : List Chunk} {words : Chunk} (split : stream = front ++ words :: rest)
    (sound : ∀ earlier ∈ front, earlier.length = p.chunkSize)
    (expected : front.length < p.chunkCount) (wrong : words.length ≠ p.chunkSize) :
    Refuses p stream (.chunkLength front.length p.chunkSize words.length)
  /-- A chunk of any length behind all that are expected. -/
  | more {front rest : List Chunk} {words : Chunk} (split : stream = front ++ words :: rest)
    (sound : ∀ earlier ∈ front, earlier.length = p.chunkSize)
    (complete : front.length = p.chunkCount) :
    Refuses p stream (.chunkCount p.chunkCount (p.chunkCount + 1))
  /-- The end of the stream, where a chunk is expected. -/
  | fewer (sound : ∀ words ∈ stream, words.length = p.chunkSize)
    (short : stream.length < p.chunkCount) :
    Refuses p stream (.chunkCount p.chunkCount stream.length)

/-- A stream that is right so far turns out to match, or something is wrong with it. -/
theorem matches_or_refuses_append (p : Params) (rest : List Chunk) :
    ∀ front : List Chunk, (∀ earlier ∈ front, earlier.length = p.chunkSize) →
      front.length ≤ p.chunkCount →
      p.Matches (front ++ rest) ∨ ∃ cause, p.Refuses (front ++ rest) cause := by
  induction rest with
  | nil =>
    intro front sound room
    rw [List.append_nil]
    by_cases complete : front.length = p.chunkCount
    · exact .inl ⟨complete, sound⟩
    · exact .inr ⟨_, .fewer sound (Nat.lt_of_le_of_ne room complete)⟩
  | cons words rest ih =>
    intro front sound room
    by_cases complete : front.length = p.chunkCount
    · exact .inr ⟨_, .more rfl sound complete⟩
    have expected : front.length < p.chunkCount := Nat.lt_of_le_of_ne room complete
    by_cases right : words.length = p.chunkSize
    · -- One more chunk has passed.
      rw [List.append_cons]
      refine ih (front ++ [words]) (fun earlier member => ?_) ?_
      · rcases List.mem_append.mp member with before | here
        · exact sound earlier before
        · rw [List.mem_singleton.mp here, right]
      · rw [List.length_append]
        exact expected
    · exact .inr ⟨_, .length rfl sound expected right⟩

theorem matches_or_refuses (p : Params) (stream : List Chunk) :
    p.Matches stream ∨ ∃ cause, p.Refuses stream cause :=
  matches_or_refuses_append p stream [] (fun _ member => absurd member List.not_mem_nil)
    (Nat.zero_le _)

end Params

variable {σ K : Type} [Prf K]

namespace Tables

variable {p : Params} {stream : List Chunk}

/-- Chunks that are as long as they have to be are taken in, whatever follows. -/
theorem absorbStream_append (valid : p.Valid) {front : List Chunk} :
    ∀ (chunk : Nat) (t : Tables K), (∀ earlier ∈ front, earlier.length = p.chunkSize) →
      chunk + front.length ≤ p.chunkCount →
      ∃ t' : Tables K, ∀ rest, t.absorbStream p chunk (front ++ rest)
        = t'.absorbStream p (chunk + front.length) rest := by
  induction front with
  | nil => exact fun _ t _ _ => ⟨t, fun _ => rfl⟩
  | cons words front ih =>
    intro chunk t sound room
    rw [List.length_cons] at room ⊢
    have right : words.length = p.chunkSize := sound words List.mem_cons_self
    obtain ⟨t', passed⟩ := ih (chunk + 1)
      ⟨absorbPrimary p chunk words t.primary, absorbBackups p chunk words t.backups⟩
      (fun earlier member => sound earlier (List.mem_cons_of_mem _ member))
      (by omega)
    refine ⟨t', fun rest => ?_⟩
    rw [List.cons_append, absorbStream, if_neg (by omega), if_neg (fun differs => differs right),
      absorb_ok valid, ← Nat.add_assoc, Nat.add_right_comm, ← passed]
    rfl

theorem absorbStream_of_refuses (valid : p.Valid) (t : Tables K) {cause : Error}
    (refuses : p.Refuses stream cause) : t.absorbStream p 0 stream = .error cause := by
  cases refuses with
  | length split sound expected wrong =>
    obtain ⟨t', passed⟩ := absorbStream_append valid 0 t sound (by omega)
    rw [split, passed, Nat.zero_add, absorbStream, if_neg (by omega), if_pos wrong]
  | more split sound complete =>
    obtain ⟨t', passed⟩ := absorbStream_append valid 0 t sound (by omega)
    rw [split, passed, Nat.zero_add, absorbStream, if_pos (by omega), complete]
  | fewer sound short =>
    obtain ⟨t', passed⟩ := absorbStream_append valid 0 t sound (by omega)
    rw [← List.append_nil stream, passed, Nat.zero_add, absorbStream, if_neg (by omega),
      List.append_nil]

omit [Prf K] in
/-- The tables that are drawn: the next keys of the source, slot after slot and then group after
group. -/
theorem draw_eq [KeySource σ K] (p : Params) (source : σ) :
    (draw (K := K) p source).1
      = ⟨(List.range p.primaryCount).map fun slot => some { key := keyAt source slot },
        (List.range p.chunkCount).map fun group =>
          (List.range p.backupsPerChunk).map fun position =>
            some { key := keyAt source (p.primaryCount + group * p.backupsPerChunk + position) }⟩
        := by
  simp only [draw, drawGroups_eq, drawHints_source, drawHints_eq, ← skipKeys_add, keyAt_skipKeys]

end Tables

namespace Client

variable [KeySource σ K] {client : Client σ K} {stream : List Chunk}

/-! ### One build -/

/-- What a build makes of a session. Tables are given without the parities of their hints, so an
entry with a key and nothing else is a live hint that is not programmed. -/
structure Renewed (client next : Client σ K) : Prop where
  params : next.params = client.params
  primary : next.tables.primary.map Slot.bare
    = (List.range client.params.primaryCount).map fun slot =>
        some { key := keyAt client.source slot }
  backups : next.tables.backups.map (·.map Slot.bare)
    = (List.range client.params.chunkCount).map fun group =>
        (List.range client.params.backupsPerChunk).map fun position =>
          some { key := keyAt client.source (client.params.primaryCount
            + group * client.params.backupsPerChunk + position) }
  consumed : next.consumed = List.replicate client.params.chunkCount 0
  pending : next.pending = none
  cache : next.cache = client.cache

/-- A build of a client over a stream, with its outcome and the state it leaves. -/
structure Builds (client : Client σ K) (stream : List Chunk)
    (step : Step Error (Client σ K) Unit) : Prop where
  ok_iff : step.outcome = .ok () ↔ client.params.Matches stream
  error_iff : ∀ cause, step.outcome = .error cause ↔ client.params.Refuses stream cause
  no_fault : ∀ cause, step.outcome ≠ .fault cause
  /-- All keys are drawn in any case. -/
  source : step.state.source = skipKeys K
    (client.params.primaryCount + client.params.backupsPerChunk * client.params.chunkCount)
    client.source
  renewed : step.outcome = .ok () → client.Renewed step.state
  kept : step.outcome ≠ .ok () → step.state = { client with source := step.state.source }

theorem rebuild_of_refuses (valid : client.params.Valid) {cause : Error}
    (refuses : client.params.Refuses stream cause) :
    rebuild stream client
      = ⟨.error cause, { client with
          source := skipKeys K client.params.keyCount client.source }, []⟩ := by
  rw [rebuild]
  dsimp only
  rw [Tables.absorbStream_of_refuses valid _ refuses, Tables.draw_source]
  rfl

theorem renewed_rebuilt {tables : Tables K}
    (built : tables.Built client.params client.source stream) :
    client.Renewed (client.rebuilt tables) where
  params := rfl
  primary := congrArg Tables.primary (built.bare.trans (Tables.draw_eq ..))
  backups := congrArg Tables.backups (built.bare.trans (Tables.draw_eq ..))
  consumed := rfl
  pending := rfl
  cache := rfl

theorem builds_rebuild (valid : client.params.Valid) (stream : List Chunk) :
    client.Builds stream (rebuild stream client) := by
  rcases client.params.matches_or_refuses stream with whole | ⟨cause, refuses⟩
  · have ended : (rebuild stream client).outcome = .ok () :=
      rebuild_ok valid whole.length whole.lengths
    obtain ⟨tables, built, left⟩ := rebuild_of_ok ended
    have sound : ∀ cause, ¬ client.params.Refuses stream cause := by
      intro cause refuses
      rw [rebuild_of_refuses valid refuses] at ended
      exact absurd ended (by simp)
    exact {
      ok_iff := iff_of_true ended whole
      error_iff := fun cause => iff_of_false (by simp [ended]) (sound cause)
      no_fault := fun cause => by simp [ended]
      source := by rw [left]; rfl
      renewed := fun _ => left ▸ renewed_rebuilt built
      kept := fun failed => absurd ended failed }
  · have eq := rebuild_of_refuses valid refuses
    have outcome : (rebuild stream client).outcome = .error cause := congrArg Step.outcome eq
    have flawed : ¬ client.params.Matches stream := by
      intro whole
      have ended := rebuild_ok valid whole.length whole.lengths
      exact absurd (outcome.symm.trans ended) (by simp)
    -- A build has one outcome, so no second thing can be the first that is wrong.
    have only : ∀ other, client.params.Refuses stream other → other = cause := by
      intro other refuses'
      rw [rebuild_of_refuses valid refuses'] at outcome
      exact Outcome.error.inj outcome
    exact {
      ok_iff := iff_of_false (by simp [outcome]) flawed
      error_iff := fun other => by
        rw [outcome]
        exact ⟨fun h => Outcome.error.inj h ▸ refuses, fun h => congrArg _ (only other h).symm⟩
      no_fault := fun other => by simp [outcome]
      source := by rw [eq]; rfl
      renewed := fun ended => absurd (outcome.symm.trans ended) (by simp)
      kept := fun _ => by rw [eq] }

/-! ### All keys of a session -/

variable [RandomSource σ]

/-- The keys that are drawn in a run. -/
def runKeys (client : Client σ K) : (run : List Operation) → List K
  | [] => []
  | operation :: rest =>
    operation.drawnKeys client ++ (operation.act client).state.runKeys rest

/-- A run over a logged source is the same run, and the log grows by its keys. -/
theorem after_logged (run : List Operation) : ∀ (client : Client σ K) (keys : List K),
    (client.logged keys).after run = (client.after run).logged (keys ++ client.runKeys run) := by
  induction run with
  | nil => exact fun client keys => congrArg client.logged (List.append_nil keys).symm
  | cons operation rest ih =>
    intro client keys
    rw [after, operation.act_logged, ih, runKeys, List.append_assoc]
    rfl

theorem runKeys_append (front back : List Operation) : ∀ client : Client σ K,
    client.runKeys (front ++ back) = client.runKeys front ++ (client.after front).runKeys back := by
  induction front with
  | nil => exact fun _ => rfl
  | cons operation rest ih =>
    intro client
    rw [List.cons_append, runKeys, runKeys, ih, List.append_assoc, after]

theorem length_runKeys (run : List Operation) : ∀ client : Client σ K,
    (client.runKeys run).length = run.countP Operation.isBuild * client.params.keyCount := by
  induction run with
  | nil => exact fun _ => (Nat.zero_mul _).symm
  | cons operation rest ih =>
    intro client
    have params : (operation.act client).state.params = client.params :=
      client.params_after [operation]
    rw [runKeys, List.length_append, ih, params, List.countP_cons, Nat.add_mul, Nat.add_comm]
    refine congrArg (List.countP Operation.isBuild rest * client.params.keyCount + ·) ?_
    rw [Operation.drawnKeys]
    split
    · rw [length_nextKeys, Nat.one_mul]
    · rw [List.length_nil, Nat.zero_mul]

/-- The keys of a session that is built over a stream and then runs, as a log of its source has
them. A build is known by the builds before it. -/
structure InBlocks (p : Params) (source : σ) (stream : List Chunk) (run : List Operation)
    (keys : List K) : Prop where
  /-- The log changes nothing in the session. -/
  same : (setup p (⟨source, []⟩ : Logged σ K) stream).state.after run
    = ((setup p source stream).state.after run).logged keys
  length : keys.length = (1 + run.countP Operation.isBuild) * p.keyCount
  first : ∀ position < p.keyCount, keys[position]? = some (keyAt source position)
  /-- A later build has the block of its number, and it is the source that it finds which has
  these keys next. -/
  later : ∀ {front back : List Operation} {next : List Chunk},
    run = front ++ .rebuild next :: back → ∀ position < p.keyCount,
      keys[(1 + front.countP Operation.isBuild) * p.keyCount + position]?
        = some (keyAt ((setup (K := K) p source stream).state.after front).source position)

omit [Prf K] [RandomSource σ] in
theorem nextKeys_getElem? {count position : Nat} (within : position < count) (source : σ) :
    (nextKeys (K := K) count source)[position]? = some (keyAt source position) := by
  rw [nextKeys, List.getElem?_map, List.getElem?_range within]
  rfl

theorem inBlocks_setup (p : Params) (source : σ) (stream : List Chunk) (run : List Operation) :
    InBlocks p source stream run
      (nextKeys p.keyCount source ++ (setup (K := K) p source stream).state.runKeys run) := by
  have params : (setup (K := K) p source stream).state.params = p := by
    rcases rebuild_cases stream ({ params := p, source } : Client σ K) with
      ⟨tables, -, -, left⟩ | ⟨left, -⟩
    · exact congrArg Client.params left
    · exact congrArg Client.params left
  have own := length_nextKeys (K := K) p.keyCount source
  have total (part : List Operation) :
      (nextKeys p.keyCount source ++ (setup (K := K) p source stream).state.runKeys part).length
        = (1 + part.countP Operation.isBuild) * p.keyCount := by
    rw [List.length_append, own, length_runKeys, params, Nat.add_mul, Nat.one_mul]
  refine ⟨?_, total run, fun position within => ?_, ?_⟩
  · have start := rebuild_logged stream ({ params := p, source } : Client σ K) []
    rw [← after_logged]
    exact congrArg (fun step => step.state.after run) start
  · rw [List.getElem?_append_left (own.symm ▸ within)]
    exact nextKeys_getElem? within source
  · -- The keys in front are whole blocks, one for each build before this one.
    rintro front back next rfl position within
    have found : ((setup (K := K) p source stream).state.after front).params = p :=
      (params_after _ front).trans params
    rw [runKeys_append, ← List.append_assoc, ← total front,
      List.getElem?_append_right (Nat.le_add_right ..), Nat.add_sub_cancel_left, runKeys,
      Operation.drawnKeys_rebuild, found, List.getElem?_append_left (by rwa [length_nextKeys])]
    exact nextKeys_getElem? within _

/-- **The offline phase.**  A stream is accepted just if it has all chunks and each of them all
words, and is otherwise refused for the first thing that is wrong with it.  Hints get the keys in
the order in which they are drawn, and no two builds of a session, failed or not, share one. -/
theorem offline_phase {size : Nat} {p : Params} (derived : p.Derived size) :
    (∀ (client : Client σ K) (stream : List Chunk), client.params = p →
      client.Builds stream (rebuild stream client))
    ∧ (∀ (source : σ) (stream : List Chunk),
      Builds { params := p, source } stream (setup (K := K) p source stream))
    ∧ ∀ (source : σ) (stream : List Chunk) (run : List Operation),
      ∃ keys : List K, InBlocks p source stream run keys := by
  refine ⟨fun client stream params => ?_, fun source stream => ?_, fun source stream run => ?_⟩
  · subst params
    exact builds_rebuild derived.valid stream
  · have valid : ({ params := p, source } : Client σ K).params.Valid := derived.valid
    exact builds_rebuild valid stream
  · exact ⟨_, inBlocks_setup p source stream run⟩

/-- Four keys are drawn by each of the three builds here, the second of which fails. -/
theorem offline_phase_around_failure :
    Small.params.Derived 4
    ∧ (setup (K := LiteralKey) Small.params Small.source [[10, 20], [30]]).outcome
      = .error (.chunkLength 1 2 1)
    ∧ (setup (K := LiteralKey) Small.params Small.source [[10, 20], [30, 40], []]).outcome
      = .error (.chunkCount 2 3)
    ∧ Small.client.Renewed (rebuild Small.server.chunks Small.client).state
    ∧ ∃ keys : List LiteralKey, keys.length = 12 ∧ keys[3]? = some ⟨[1, 0]⟩
      ∧ keys[8]? = some ⟨[]⟩ ∧ InBlocks Small.params Small.source Small.server.chunks
        [.rebuild [[10, 20], [30]], .rebuild Small.server.chunks] keys := by
  obtain ⟨mid, first, runs⟩ :=
    offline_phase (σ := Scripted Keystream) (K := LiteralKey) Small.derived
  obtain ⟨keys, blocks⟩ := runs Small.source Small.server.chunks
    [.rebuild [[10, 20], [30]], .rebuild Small.server.chunks]
  have short : ([[10, 20], [30]] : List Chunk) = [[10, 20]] ++ [30] :: [] := rfl
  have long : ([[10, 20], [30, 40], []] : List Chunk) = [[10, 20], [30, 40]] ++ [] :: [] := rfl
  have again : ([.rebuild [[10, 20], [30]], .rebuild Small.server.chunks] : List Operation)
      = [.rebuild [[10, 20], [30]]] ++ .rebuild Small.server.chunks :: [] := rfl
  have length := Params.Refuses.length (p := Small.params) short (by decide) (by decide) (by decide)
  have more := Params.Refuses.more (p := Small.params) long (by decide) (by decide)
  have whole : Small.client.params.Matches Small.server.chunks := ⟨by decide, by decide⟩
  have built := mid Small.client Small.server.chunks rfl
  refine ⟨Small.derived, ((first Small.source _).error_iff _).mpr length,
    ((first Small.source _).error_iff _).mpr more, built.renewed (built.ok_iff.mpr whole), keys,
    blocks.length, ?_, ?_, blocks⟩
  · exact (blocks.first 3 (by decide)).trans (by decide)
  · exact (blocks.later again 0 (by decide)).trans (by decide)

end Client

end PrivateRetrieval
