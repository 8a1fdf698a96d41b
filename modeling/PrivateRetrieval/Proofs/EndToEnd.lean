/-
Right words from an honest server.

A server is honest towards a session if every answer of the right length is its
own answer to the pending query.  Answers that cannot be decoded, answers of a
wrong length, transports that fail and streams that are refused may come at any
time:

* **`Operation.Honest`** — the bound on answers and streams;
* **`Client.Truthful`** — every kept word is that of the database, and the ledger is
  that of its chunks (`Client.Change.truthful`);
* **`Client.honest_session`** — all words that a session ever yields or keeps are
  those of the database.
-/
import PrivateRetrieval.Proofs.Ledger
import PrivateRetrieval.Proofs.WordCodec

namespace PrivateRetrieval

variable {σ K : Type}

/-! ### Honest answers -/

/-- A peer whose answers leave the words of a server. -/
def Peer.truthful (s : Server) : Peer σ K where
  leaves _ query word := s.words[query.index]? = some word
  sends stream := stream = s.chunks

namespace Client

/-- Every kept word is that of the database. -/
def Faithful (s : Server) (client : Client σ K) : Prop :=
  ∀ {index word}, client.cached index = some word → s.words[index]? = some word

variable [Prf K]

/-- If the bytes encode as many parities as there are chunks, then they are the
server's response to the pending query. -/
def HonestResponse (s : Server) (client : Client σ K) (response : Bytes) : Prop :=
  ∀ query parities, client.pending = some query → Words.decode response = .ok parities →
    parities.length = client.params.chunkCount →
    ∃ offsets, client.prepare query = .ok offsets
      ∧ (s.respond (encodeOffsets offsets)).result = .ok response

end Client

/-- What an honest server contributes to an operation. -/
def Operation.Honest [Prf K] [KeySource σ K] (s : Server) (client : Client σ K) :
    Operation → Prop
  | .recover handle parities =>
    client.pending = some handle → parities.length = client.params.chunkCount →
      ∃ offsets, client.prepare handle = .ok offsets
        ∧ (s.process offsets).result = .ok parities
  | .processResponse response => client.HonestResponse s response
  | .retrieve index respond =>
    ∀ bytes response, (Client.query index client).outcome = .ok bytes →
      (respond bytes).result = .ok response →
      (∃ parities, Words.decode response = .ok parities
        ∧ parities.length = client.params.chunkCount) →
      (s.respond bytes).result = .ok response
  | .rebuild stream => (Client.rebuild stream client).outcome = .ok () → stream = s.chunks
  | _ => True

/-- The index whose word an operation asks for. -/
def Operation.asks (client : Client σ K) : Operation → Option Nat
  | .recover handle _ => some handle.index
  | .processResponse _ => client.pending.map Query.index
  | .retrieve index _ => some index
  | _ => none

namespace Client

variable {client : Client σ K} {query : Query} {s : Server}

theorem faithful_insert (faithful : client.Faithful s) {index : Nat} {word : UInt64}
    (right : s.words[index]? = some word) {other : Nat} {kept : UInt64}
    (known : (client.cache.insert index word).get? other = some kept) :
    s.words[other]? = some kept := by
  rw [Cache.get?_insert] at known
  split at known
  · rename_i own
    rw [own, right]
    exact known
  · exact faithful known

variable [Prf K]

/-- Tables and cache of a session whose server has been honest. -/
structure Truthful (s : Server) (client : Client σ K) : Prop where
  consistent : client.Consistent
  same : client.params.dbSize = s.words.size
  ledger : client.Ledger s.chunks
  faithful : client.Faithful s

theorem Truthful.wordOf (truthful : client.Truthful s) {index : Nat}
    (within : index < client.params.dbSize) :
    s.words[index]? = some (client.params.wordOf s.chunks index) := by
  have size := (truthful.ledger.same_chunks truthful.consistent.valid).2
  have inDb : index < s.words.size := truthful.same ▸ within
  have there := s.wordIn_chunks_of_index inDb
  rw [Params.chunkOf, Params.offsetInChunk, size] at there
  rw [Array.getElem?_eq_getElem inDb, ← there]
  rfl

/-- The server's own answer leaves the word of the database: the error of a
programmed hint is none if the word at its point is the true one. -/
theorem Truthful.answer (truthful : client.Truthful s) {offsets : List Nat}
    {parities : List UInt64} {word : UInt64} (prepared : client.prepare query = .ok offsets)
    (told : (s.process offsets).result = .ok parities)
    (left : client.answer query parities = .ok word) : s.words[query.index]? = some word := by
  have pending := (answer_of_ok left).1
  obtain ⟨hint, offsets', parities', word', held, prepared', told', left', free, pinned⟩ :=
    answer_of_truth truthful.consistent truthful.ledger pending
  cases Outcome.ok.inj (prepared.symm.trans prepared')
  cases Except.ok.inj (told.symm.trans told')
  cases Outcome.ok.inj (left.symm.trans left')
  have right := truthful.wordOf (truthful.consistent.awaits pending).inRange
  -- A programmed hint carries the error of the word at its point, which is none here.
  cases point : hint.point with
  | none => rw [right, free point]
  | some point =>
    obtain ⟨kept, known, word_eq⟩ := pinned _ point
    obtain ⟨inRange, -⟩ := truthful.ledger.programmed held point
    have true_kept := (truthful.wordOf inRange).symm.trans (truthful.faithful known)
    rw [word_eq, Option.some.inj true_kept, xor_xor_cancel_right, right]

omit [Prf K] in
theorem process_of_respond {offsets : List Nat} {response : Bytes} {parities : List UInt64}
    (short : ∀ offset ∈ offsets, offset ≤ offsets.length)
    (told : (s.respond (encodeOffsets offsets)).result = .ok response)
    (decoded : Words.decode response = .ok parities) :
    (s.process offsets).result = .ok parities := by
  obtain ⟨words, candidates, asked, told, rfl⟩ := s.respond_eq_ok told
  obtain ⟨fits, rfl⟩ := Words.of_decode_encode asked
  obtain ⟨-, rfl⟩ := Words.of_decode_encode decoded
  -- An offset is below the count of a message, so it is a word and survives as one.
  have small (offset : Nat) (member : offset ∈ offsets) : offset < UInt64.size := by
    rw [List.length_map] at fits
    have below := Nat.lt_of_le_of_lt (short offset member) fits
    exact Nat.lt_trans below (by decide)
  rwa [Words.toNat_ofNat small] at told

/-- Prepared offsets fit their chunks, which are no longer than they are many. -/
theorem prepared_short (consistent : client.Consistent) (pending : client.pending = some query)
    {offsets : List Nat} (prepared : client.prepare query = .ok offsets) :
    ∀ offset ∈ offsets, offset ≤ offsets.length := by
  obtain ⟨length, below⟩ := consistent.prepared_fits pending prepared
  have few := consistent.valid.chunkSize_le_chunkCount
  intro offset member
  have inChunk := below offset member
  rw [Params.puncturedLength] at length
  omega

theorem Truthful.takes [KeySource σ K] (truthful : client.Truthful s) {response : Bytes}
    (honest : client.HonestResponse s response) :
    client.Takes (Peer.truthful s) response := by
  rintro query word ⟨parities, decoded, left⟩
  obtain ⟨pending, length, -⟩ := answer_of_ok left
  obtain ⟨offsets, prepared, told⟩ := honest query parities pending decoded length
  have short := prepared_short truthful.consistent pending prepared
  exact truthful.answer prepared (process_of_respond short told decoded) left

variable [KeySource σ K]

theorem Change.truthful {after : Client σ K} {marks : List Milestone}
    (change : Change (Peer.truthful s) client marks after) (truthful : client.Truthful s) :
    after.Truthful s := by
  obtain ⟨consistent, same, ledger, faithful⟩ := truthful
  have current : Milestone.latest s.chunks marks = s.chunks := by
    cases change with
    | rebuild built sent => exact sent
    | _ => rfl
  refine ⟨change.consistent consistent, ?_, ?_, ?_⟩
  · rw [change.params_eq, same]
  · have kept := change.ledger consistent ledger
    rwa [current] at kept
  · intro index word known
    cases change with
    | refresh pending next left => exact faithful_insert faithful left known
    | exhaust pending next left => exact faithful_insert faithful left known
    | _ => exact faithful known

/-- What an honest server sends to a truthful session leaves it truthful. -/
theorem Truthful.supplied (truthful : client.Truthful s) {operation : Operation}
    (honest : operation.Honest s client) : operation.Supplied (Peer.truthful s) client := by
  cases operation with
  | recover handle parities =>
    intro word left
    obtain ⟨pending, length, -⟩ := answer_of_ok left
    obtain ⟨offsets, prepared, told⟩ := honest pending length
    exact truthful.answer prepared told left
  | processResponse response => exact truthful.takes honest
  | retrieve index respond =>
    intro bytes response asked told
    by_cases selected : ∃ query, (Client.select index client).outcome = .ok query
    · -- The transport answers after the selection, in a state that is truthful as well.
      obtain ⟨query, selected⟩ := selected
      obtain ⟨selects, -, -⟩ := select_of_ok selected
      have waiting : (client.awaiting query).Truthful s :=
        Change.truthful (.select selects) truthful
      have found := query_of_select_ok selected
      rw [show (Client.query index client).state = client.awaiting query by rw [found]]
      refine waiting.takes fun pendingQuery parities pending decoded length => ?_
      obtain rfl : query = pendingQuery := Option.some.inj pending
      have answered := honest bytes response asked told ⟨parities, decoded, length⟩
      rw [found] at asked
      obtain ⟨offsets, prepared, rfl⟩ := Outcome.map_eq_ok asked
      exact ⟨offsets, prepared, answered⟩
    · exact absurd asked ((query_of_select_not_ok (not_exists.mp selected)).2 bytes)
  | rebuild stream => exact honest
  | _ => trivial

/-! ### Words that are yielded -/

omit [Prf K] [KeySource σ K] in
theorem cached_of_recover {parities : List UInt64} {word : UInt64}
    (yielded : (recover query parities client).outcome = .ok word) :
    client.pending = some query
      ∧ (recover query parities client).state.cached query.index = some word := by
  rcases recover_cases client query parities with ⟨other, answered⟩ | ⟨-, noWord, -⟩
  · refine ⟨(answer_of_ok answered).1, ?_⟩
    obtain ⟨outcome, kept⟩ := recovers_of_answer answered
    rcases outcome with outcome | outcome
    · cases outcome.symm.trans yielded
      exact kept
    · exact absurd (outcome.symm.trans yielded) (by simp)
  · exact absurd yielded (noWord word)

omit [KeySource σ K] in
theorem cached_of_retrieve {index : Nat} {respond : Bytes → Reply Bytes} {word : UInt64}
    (yielded : (retrieve index respond client).outcome = .ok word) :
    (retrieve index respond client).state.cached index = some word := by
  cases known : client.cached index with
  | some kept =>
    rw [retrieve_of_cached respond known] at yielded ⊢
    cases yielded
    exact known
  | none =>
    by_cases selected : ∃ query, (select index client).outcome = .ok query
    · obtain ⟨query, selected⟩ := selected
      obtain ⟨-, rfl, -⟩ := select_of_ok selected
      rcases retrieve_of_select_ok respond selected with
        ⟨_, _, other, -, -, -, ⟨hint, position, -, ended, left⟩ | ⟨-, ended, -⟩⟩
        | ⟨cause, ended, -⟩ | ⟨cause, ended, -⟩
      · cases ended.symm.trans yielded
        rw [left]
        exact (Cache.get?_insert ..).trans (if_pos rfl)
      all_goals exact absurd (ended.symm.trans yielded) (by simp)
    · have never := (retrieve_of_select_not_ok respond known (not_exists.mp selected)).2
      exact absurd yielded (never word)

end Client

variable [Prf K] [KeySource σ K]

/-- Every word that is yielded was asked for, and is kept. -/
theorem Operation.cached_of_word [RandomSource σ] {client : Client σ K} {operation : Operation}
    {word : UInt64} (yielded : (operation.act client).outcome = .ok (.word word)) :
    ∃ index, operation.asks client = some index
      ∧ (operation.act client).state.cached index = some word := by
  cases operation with
  | recover handle parities =>
    rw [act, Action.map_apply] at yielded ⊢
    obtain ⟨_, yielded, ⟨⟩⟩ := Outcome.map_eq_ok yielded
    exact ⟨handle.index, rfl, (Client.cached_of_recover yielded).2⟩
  | processResponse response =>
    rw [act, Action.map_apply] at yielded ⊢
    obtain ⟨_, yielded, ⟨⟩⟩ := Outcome.map_eq_ok yielded
    dsimp only
    rcases Client.processResponse_cases client response with
      ⟨query, parities, pending, -, eq⟩ | ⟨cause, -, -, eq⟩
    · rw [eq] at yielded ⊢
      refine ⟨query.index, ?_, (Client.cached_of_recover yielded).2⟩
      rw [asks, pending, Option.map_some]
    · rw [eq] at yielded
      exact absurd yielded (by simp)
  | retrieve index respond =>
    rw [act, Action.map_apply] at yielded ⊢
    obtain ⟨_, yielded, ⟨⟩⟩ := Outcome.map_eq_ok yielded
    exact ⟨index, rfl, Client.cached_of_retrieve yielded⟩
  | _ =>
    -- The other operations yield something else.
    rw [act, Action.map_apply] at yielded
    obtain ⟨_, -, other⟩ := Outcome.map_eq_ok yielded
    exact absurd other (by simp)

namespace Client

variable {s : Server}

theorem Truthful.act [RandomSource σ] {client : Client σ K} (truthful : client.Truthful s)
    {operation : Operation} (honest : operation.Honest s client) :
    (operation.act client).state.Truthful s :=
  (Operation.path (truthful.supplied honest)).invariant Change.truthful truthful

/-- In an honest run every state is truthful, and so is every word that is yielded. -/
theorem Truthful.turns [RandomSource σ] {client : Client σ K} (truthful : client.Truthful s)
    {run : List Operation}
    (honest : client.Throughout (fun found operation => operation.Honest s found) run) :
    (∀ turn ∈ client.turns run, turn.client.Truthful s ∧ turn.step.state.Truthful s)
      ∧ (client.after run).Truthful s := by
  induction run generalizing client with
  | nil => exact ⟨fun _ member => absurd member List.not_mem_nil, truthful⟩
  | cons operation rest ih =>
    have next := truthful.act honest.1
    obtain ⟨turns, last⟩ := ih next honest.2
    refine ⟨fun turn member => ?_, last⟩
    rcases List.mem_cons.mp member with rfl | later
    · exact ⟨truthful, next⟩
    · exact turns turn later

theorem truthful_setup {p : Params} (derived : p.Derived s.words.size) (source : σ) :
    (setup (K := K) p source s.chunks).outcome = .ok ()
      ∧ (setup (K := K) p source s.chunks).state.Truthful s := by
  have same : s.params.dbSize = p.dbSize := s.dbSize_eq.trans derived.dbSize_eq.symm
  have length : s.chunks.length = p.chunkCount :=
    s.length_chunks.trans (s.valid.chunkCount_eq_of derived.valid same)
  have lengths (words : Chunk) (member : words ∈ s.chunks) : words.length = p.chunkSize :=
    (s.length_of_mem_chunks member).trans (s.valid.chunkSize_eq_of derived.valid same)
  have ready : (setup (K := K) p source s.chunks).outcome = .ok () :=
    rebuild_ok derived.valid length lengths
  obtain ⟨tables, built, left⟩ := setup_of_ok ready
  refine ⟨ready, consistent_setup derived.valid ready, ?_, ?_, ?_⟩
  · rw [setup_params ready, derived.dbSize_eq]
  · rw [left]
    exact ledger_rebuilt built
  · rw [left]
    intro index word known
    exact absurd known (by simp [cached, rebuilt, Cache.get?])

/-- **Right words from an honest server.**  A session over the chunks of a server is
ready.  If all answers of the right length are those of the server, then in every
state the words that are kept are those of the database, and every word that is
yielded is the one that was asked for. -/
theorem honest_session [RandomSource σ] (s : Server) {p : Params}
    (derived : p.Derived s.words.size) (source : σ) (run : List Operation)
    (honest : (setup (K := K) p source s.chunks).state.Throughout
      (fun found operation => operation.Honest s found) run) :
    let start := (setup (K := K) p source s.chunks).state
    (setup (K := K) p source s.chunks).outcome = .ok ()
      ∧ (∀ turn ∈ start.turns run, turn.client.Faithful s ∧ turn.step.state.Faithful s
        ∧ ∀ word, turn.step.outcome = .ok (.word word) →
          ∃ index, turn.operation.asks turn.client = some index ∧ s.words[index]? = some word)
      ∧ (start.after run).Faithful s := by
  intro start
  obtain ⟨ready, truthful⟩ := truthful_setup (K := K) derived source
  obtain ⟨turns, last⟩ := truthful.turns honest
  refine ⟨ready, fun turn member => ?_, last.faithful⟩
  obtain ⟨before, after⟩ := turns turn member
  refine ⟨before.faithful, after.faithful, fun word yielded => ?_⟩
  obtain ⟨index, asks, kept⟩ := Operation.cached_of_word yielded
  exact ⟨index, asks, after.faithful kept⟩

/-- An answer that is too short, the right one for index 0, a stream that is refused,
and a retrieval of index 2 with the hint that was programmed at 0. -/
theorem honest_session_four_words :
    let run : List Operation := [.select 0, .recover ⟨0, 0, 0⟩ [0], .recover ⟨0, 0, 0⟩ [40, 20],
      .rebuild [[]], .retrieve 2 Small.server.respond]
    Small.client.Throughout (fun found operation => operation.Honest Small.server found) run
      ∧ (Small.client.after run).Faithful Small.server
      ∧ (Small.client.after run).cached 0 = some 10
      ∧ (Small.client.after run).cached 2 = some 30 := by
  intro run
  have honest : Small.client.Throughout
      (fun found operation => operation.Honest Small.server found) run := by
    refine ⟨trivial, fun _ short => ?_, fun _ _ => ⟨[1], ?_, ?_⟩, fun built => ?_, ?_, trivial⟩
    · exact absurd short (by decide)
    · decide
    · rfl
    · exact absurd built (by decide)
    · exact fun _ _ _ told _ => told
  obtain ⟨-, -, faithful⟩ := honest_session Small.server Small.derived Small.source run honest
  refine ⟨honest, faithful, ?_, ?_⟩
  · decide
  · decide

end Client

end PrivateRetrieval
