/-
A client in front of a server.

A client and a server that share the number of words cut them in the same way.  So
what one of them sends passes all checks of the other, whatever has happened in the
session before:

* **`Client.Facing`** — client and server share the number of words, and the chunks are few
  enough to be counted on the wire;
* **`Client.Facing.process_eq`**, **`Client.Facing.respond_eq`** — the server answers every query
  that such a client prepares, as values and as bytes;
* **`Client.Facing.exchange_eq`** — to take the answer as bytes is to take it as values, and
  the query is not given up afterwards (`Client.Facing.guarded_eq`).
-/
import PrivateRetrieval.Proofs.Candidates
import PrivateRetrieval.Proofs.Delivery
import PrivateRetrieval.Proofs.Representation
import PrivateRetrieval.Proofs.WordCodec

namespace PrivateRetrieval

variable {σ K : Type} [Prf K]

namespace Client

/-- A session whose server has as many words as it expects. -/
structure Facing (s : Server) (client : Client σ K) : Prop where
  consistent : client.Consistent
  same : client.params.dbSize = s.words.size
  few : client.params.chunkCount < UInt32.size

variable {s : Server} {client : Client σ K} {query : Query} {offsets : List Nat}

/-! ### What the two share -/

omit [Prf K] in
theorem chunking_eq (valid : client.params.Valid) (same : client.params.dbSize = s.words.size) :
    s.params.chunkCount = client.params.chunkCount
      ∧ s.params.chunkSize = client.params.chunkSize := by
  have size : s.params.dbSize = client.params.dbSize := s.dbSize_eq.trans same.symm
  exact ⟨s.valid.chunkCount_eq_of valid size, s.valid.chunkSize_eq_of valid size⟩

theorem Facing.chunkCount_eq (facing : client.Facing s) :
    s.params.chunkCount = client.params.chunkCount :=
  (chunking_eq facing.consistent.valid facing.same).1

theorem Facing.chunkSize_eq (facing : client.Facing s) :
    s.params.chunkSize = client.params.chunkSize :=
  (chunking_eq facing.consistent.valid facing.same).2

/-- A server streams what its client has to read. -/
theorem Facing.rebuild_ok [KeySource σ K] (facing : client.Facing s) :
    (rebuild s.chunks client).outcome = .ok () := by
  refine Client.rebuild_ok facing.consistent.valid ?_ fun words member => ?_
  · rw [s.length_chunks, facing.chunkCount_eq]
  · rw [s.length_of_mem_chunks member, facing.chunkSize_eq]

/-- Nothing that happens in a session turns it away from its server. -/
theorem Change.facing [KeySource σ K] {peer : Peer σ K} {after : Client σ K}
    {marks : List Milestone} (change : Change peer client marks after)
    (facing : client.Facing s) : after.Facing s := by
  obtain ⟨consistent, same, few⟩ := facing
  rw [← change.params_eq] at same few
  exact ⟨change.consistent consistent, same, few⟩

theorem Facing.waiting [KeySource σ K] (facing : client.Facing s) (selects : client.Selects query) :
    (client.awaiting query).Facing s := by
  have change : Change Peer.any client [.selected query] (client.awaiting query) := .select selects
  exact change.facing facing

theorem Facing.drawn [KeySource σ K] (facing : client.Facing s) (source : σ) :
    Facing s { client with source } := by
  have change : Change Peer.any client [] { client with source } := .draw source
  exact change.facing facing

/-- A session whose server has as many words as it expects faces that server in every state,
whatever was answered before. -/
theorem facing_after [KeySource σ K] [RandomSource σ] {p : Params}
    (derived : p.Derived s.words.size) (few : p.chunkCount < UInt32.size) {source : σ}
    {stream : List Chunk} (ready : (setup (K := K) p source stream).outcome = .ok ())
    (run : List Operation) : ((setup (K := K) p source stream).state.after run).Facing s := by
  have params : ((setup (K := K) p source stream).state.after run).params = p :=
    (params_after _ run).trans (setup_params ready)
  refine ⟨consistent_after (consistent_setup derived.valid ready) run, ?_, ?_⟩
  · rw [params, derived.dbSize_eq]
  · rw [params]
    exact few

/-! ### Queries that are answered -/

/-- A prepared query has an offset for every chunk but one, each within its chunk. -/
theorem Facing.fits (facing : client.Facing s) (pending : client.pending = some query)
    (prepared : client.prepare query = .ok offsets) : s.Fits offsets := by
  obtain ⟨length, below⟩ := facing.consistent.prepared_fits pending prepared
  constructor
  · rw [length, Params.puncturedLength, facing.chunkCount_eq]
  · rw [facing.chunkSize_eq]
    exact below

theorem Facing.process_eq (facing : client.Facing s) (pending : client.pending = some query)
    (prepared : client.prepare query = .ok offsets) :
    ∃ parities, s.process offsets = ⟨.ok parities, [.processed client.params.chunkCount]⟩
      ∧ parities.length = client.params.chunkCount := by
  have fits := facing.fits pending prepared
  obtain ⟨parities, told, length, -⟩ := Server.process_of_fits fits
  refine ⟨parities, ?_, by rw [length, facing.chunkCount_eq]⟩
  rw [← facing.chunkCount_eq]
  have events : (s.process offsets).events = [.processed s.params.chunkCount] := by
    rw [s.process_eq_of_valid fits.length fits.below]
  rw [← told, ← events]

theorem Consistent.waiting [KeySource σ K] (consistent : client.Consistent)
    (selects : client.Selects query) : (client.awaiting query).Consistent := by
  have change : Change Peer.any client [.selected query] (client.awaiting query) := .select selects
  exact change.consistent consistent

/-- A random query that is selected is one that can be sent. -/
theorem Consistent.randomQueryBytes_of_ok [KeySource σ K] [RandomSource σ]
    (consistent : client.Consistent) (selected : (randomQuery client).outcome = .ok query) :
    ∃ (source : σ) (offsets : List Nat), Selects { client with source } query
      ∧ randomQuery client = ⟨.ok query, awaiting { client with source } query, []⟩
      ∧ (awaiting { client with source } query).prepare query = .ok offsets
      ∧ randomQueryBytes client = ⟨.ok (query.index, encodeOffsets offsets),
        awaiting { client with source } query, []⟩ := by
  obtain ⟨source, ⟨found, selects, eq⟩ | ⟨-, never⟩⟩ := randomQuery_cases client
  · obtain rfl : found = query := Outcome.ok.inj ((congrArg Step.outcome eq).symm.trans selected)
    have drawn : Change Peer.any client [] { client with source } := .draw source
    have waiting := (drawn.consistent consistent).waiting selects
    obtain ⟨offsets, prepared⟩ := waiting.prepare_ok (pending_awaiting _ found)
    refine ⟨source, offsets, selects, eq, prepared, ?_⟩
    rw [randomQueryBytes, Action.bind_of_ok selected, Action.read_bind_pure, eq, prepared]
    rfl
  · exact absurd selected (never query)

theorem Facing.randomQueryBytes_of_ok [KeySource σ K] [RandomSource σ] (facing : client.Facing s)
    (selected : (randomQuery client).outcome = .ok query) :
    ∃ (source : σ) (offsets : List Nat), Facing s (awaiting { client with source } query)
      ∧ randomQuery client = ⟨.ok query, awaiting { client with source } query, []⟩
      ∧ (awaiting { client with source } query).prepare query = .ok offsets
      ∧ randomQueryBytes client = ⟨.ok (query.index, encodeOffsets offsets),
        awaiting { client with source } query, []⟩ := by
  obtain ⟨source, offsets, selects, eq, prepared, asked⟩ :=
    facing.consistent.randomQueryBytes_of_ok selected
  exact ⟨source, offsets, (facing.drawn source).waiting selects, eq, prepared, asked⟩

/-- Offsets that are words, and few enough to be counted, come through the wire as they are. -/
theorem decode_encodeOffsets (few : offsets.length < UInt32.size)
    (words : ∀ offset ∈ offsets, offset < UInt64.size) :
    Words.decode (encodeOffsets offsets) = .ok (offsets.map UInt64.ofNat)
      ∧ (offsets.map UInt64.ofNat).map UInt64.toNat = offsets :=
  ⟨Words.decode_encode (by rwa [List.length_map]), Words.toNat_ofNat words⟩

theorem Facing.decode_encodeOffsets (facing : client.Facing s) (fits : s.Fits offsets) :
    Words.decode (encodeOffsets offsets) = .ok (offsets.map UInt64.ofNat)
      ∧ (offsets.map UInt64.ofNat).map UInt64.toNat = offsets := by
  have few := facing.few
  refine Client.decode_encodeOffsets ?_ fun offset member => ?_
  · rw [fits.length, facing.chunkCount_eq]
    omega
  · -- A chunk is no longer than there are chunks, and these are few.
    have below := fits.below offset member
    have long := facing.consistent.valid.chunkSize_le_chunkCount
    rw [facing.chunkSize_eq] at below
    simp only [UInt32.size, UInt64.size] at few ⊢
    omega

/-- The server takes the query in bytes, and the client can decode what it sends back. -/
theorem Facing.respond_eq (facing : client.Facing s) (pending : client.pending = some query)
    (prepared : client.prepare query = .ok offsets) {parities : List UInt64}
    (told : s.process offsets = ⟨.ok parities, [.processed client.params.chunkCount]⟩)
    (length : parities.length = client.params.chunkCount) :
    s.respond (encodeOffsets offsets)
        = ⟨.ok (Words.encode parities), [.processed client.params.chunkCount]⟩
      ∧ Words.decode (Words.encode parities) = .ok parities := by
  obtain ⟨decoded, kept⟩ := facing.decode_encodeOffsets (facing.fits pending prepared)
  refine ⟨?_, Words.decode_encode (length ▸ facing.few)⟩
  rw [s.respond_of_decoded decoded, kept, told]
  rfl

/-! ### Answers that are taken -/

/-- The answer of the server leaves a word for the query that was prepared. -/
theorem Facing.leaves (facing : client.Facing s) (pending : client.pending = some query)
    {parities : List UInt64} (length : parities.length = client.params.chunkCount) :
    ∃ word, client.answer query parities = .ok word := by
  obtain ⟨word, leaves⟩ :=
    (facing.consistent.awaits pending).leaves facing.consistent.valid length
  exact ⟨word, leaves.answer pending length⟩

theorem Facing.exchange_eq (facing : client.Facing s) (pending : client.pending = some query)
    (prepared : client.prepare query = .ok offsets) :
    exchange s.respond (encodeOffsets offsets) client
      = ((s.process offsets).toAction >>= recover query) client := by
  obtain ⟨parities, told, length⟩ := facing.process_eq pending prepared
  obtain ⟨responds, decoded⟩ := facing.respond_eq pending prepared told length
  have taken : processResponse (Words.encode parities) client = recover query parities client := by
    rw [processResponse_of_pending pending, decoded]
  rw [exchange, responds, told, Action.bind_of_ok rfl, Action.bind_of_ok rfl]
  dsimp only [Reply.toAction]
  rw [taken]

/-- The server answers the query, and the word that its answer leaves is kept. -/
theorem Facing.answered (facing : client.Facing s) (pending : client.pending = some query)
    (prepared : client.prepare query = .ok offsets) :
    ∃ response word, (s.respond (encodeOffsets offsets)).result = .ok response
      ∧ client.Answered query word (processResponse response client).outcome
          (processResponse response client).state := by
  obtain ⟨parities, told, length⟩ := facing.process_eq pending prepared
  obtain ⟨responds, decoded⟩ := facing.respond_eq pending prepared told length
  obtain ⟨word, answered⟩ := facing.leaves pending length
  refine ⟨Words.encode parities, word, by rw [responds], ?_⟩
  rw [processResponse_of_pending pending, decoded]
  exact answered_of_answer answered

/-- An answer that is taken leaves nothing to give up. -/
theorem Facing.guarded_eq (facing : client.Facing s) (pending : client.pending = some query)
    (prepared : client.prepare query = .ok offsets) :
    discardOnError (exchange s.respond (encodeOffsets offsets)) client
      = exchange s.respond (encodeOffsets offsets) client := by
  obtain ⟨parities, told, length⟩ := facing.process_eq pending prepared
  obtain ⟨responds, decoded⟩ := facing.respond_eq pending prepared told length
  obtain ⟨word, answered⟩ := facing.leaves pending length
  have heard : client.heard query (s.respond (encodeOffsets offsets)) = .ok word :=
    (heard_of_decoded (by rw [responds]) decoded).trans answered
  rw [guarded_exchange pending, exchange_of_pending pending, heard]

end Client

end PrivateRetrieval
