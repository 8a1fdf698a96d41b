/-
Counts in front of messages.

A message is a list of words with their number in four bytes in front, and nobody asks whether
four bytes are enough.  They are for the words of a chunk.  A query has an offset for every chunk
but one and an answer has a parity for every chunk, and at the very top of the sizes there are
more chunks than four bytes can count.  The count is then cut off, and what was sent is refused:

* **`Words.decode_encode_iff`** — which lists survive the wire;
* **`Params.Valid.chunkCount_le_iff`** — how many chunks there are, as a bound on the size;
* **`Params.Counts`** — up to which size each kind of message has a count that fits
  (`Params.counts`);
* **`Server.Messages`**, **`Client.Message`** — so these are the messages of a server and of a
  client that can be read back;
* **`Client.messages_counted`** — all of this for all sizes that are words.
-/
import PrivateRetrieval.Proofs.Conversation
import PrivateRetrieval.Proofs.Session

namespace PrivateRetrieval

/-! ### Lists that survive -/

/-- What is left of a number is as much as its bytes can tell. -/
theorem LittleEndian.decode_encode_mod (width n : Nat) :
    decode (encode width n) = n % capacity width := by
  induction width generalizing n with
  | zero => exact (Nat.mod_one n).symm
  | succ width ih =>
    have low : (UInt8.ofNat (n % 256)).toNat = n % 256 := by simp
    rw [encode, decode, ih, low, capacity, Nat.mod_mul]

namespace Words

/-- The most words that can be counted in front. -/
def maxCount : Nat := UInt32.size - 1

theorem decode_encode_of_many {words : List UInt64} (many : maxCount < words.length) :
    decode (encode words)
      = .error (.undecodable
        (.lengthMismatch (words.length % UInt32.size) (words.length * wordWidth))) := by
  rw [decode_encode_eq, LittleEndian.decode_encode_mod, capacity_prefixWidth]
  dsimp only
  -- What the count lost keeps it from being the number of words that follow.
  have cut : words.length % UInt32.size < words.length :=
    Nat.lt_of_lt_of_le (Nat.mod_lt _ (by decide)) many
  rw [if_pos fun same => Nat.ne_of_gt cut (Nat.eq_of_mul_eq_mul_right (by decide) same)]

theorem decode_encode_iff {words : List UInt64} :
    decode (encode words) = .ok words ↔ words.length ≤ maxCount := by
  refine ⟨fun decoded => ?_, fun few => decode_encode (Nat.lt_succ_of_le few)⟩
  exact Nat.le_of_lt_succ (of_decode_encode decoded).1

end Words

/-! ### Numbers of chunks -/

namespace Params

variable {p : Params}

/-- So many chunks cover the database. -/
theorem Valid.chunkCount_le_iff (valid : p.Valid) {count : Nat} :
    p.chunkCount ≤ count ↔ p.dbSize ≤ p.chunkSize * count := by
  have pos := valid.chunkSize_pos
  rw [valid.chunkCount_eq, ← Nat.lt_succ_iff, Nat.div_lt_iff_lt_mul pos, Nat.succ_mul,
    Nat.mul_comm]
  omega

/-- If no chunk is longer than `most`, the chunks are one more than that at most up to this
size. -/
theorem Valid.chunkCount_le_succ_iff (valid : p.Valid) {most : Nat} (short : p.chunkSize ≤ most) :
    p.chunkCount ≤ most + 1 ↔ p.dbSize ≤ most * (most + 1) := by
  rcases Nat.eq_or_lt_of_le short with rfl | shorter
  · exact valid.chunkCount_le_iff
  · have few : p.chunkCount ≤ most + 1 := Nat.le_trans valid.chunkCount_le (by omega)
    have small : (p.chunkSize + 1) * (p.chunkSize + 1) ≤ most * (most + 1) :=
      Nat.mul_le_mul shorter (Nat.le_succ_of_le shorter)
    exact iff_of_true few (Nat.le_trans (Nat.le_of_lt valid.dbSize_lt) small)

/-- The bound for `most` chunks has a gap below the square, where a chunk is one word shorter
than it is at the square. -/
theorem Valid.chunkCount_le_self_iff (valid : p.Valid) {most : Nat} (short : p.chunkSize ≤ most) :
    p.chunkCount ≤ most ↔ p.dbSize ≤ most * (most - 1) ∨ p.dbSize = most * most := by
  have pos := valid.chunkSize_pos
  rcases Nat.eq_or_lt_of_le short with rfl | shorter
  · have square := valid.chunkSize_sq_le
    have gap : p.chunkSize * (p.chunkSize - 1) < p.chunkSize * p.chunkSize :=
      Nat.mul_lt_mul_of_pos_left (by omega) pos
    rw [valid.chunkCount_le_iff]
    omega
  · -- Chunks that are shorter are counted as in `chunkCount_le_succ_iff`, one below `most`.
    obtain ⟨less, rfl⟩ := Nat.exists_eq_succ_of_ne_zero (Nat.ne_zero_of_lt shorter)
    have below : p.chunkSize ≤ less := Nat.le_of_lt_succ shorter
    have notSquare : p.dbSize ≠ (less + 1) * (less + 1) :=
      Nat.ne_of_lt (Nat.lt_of_lt_of_le valid.dbSize_lt
        (Nat.mul_le_mul (Nat.succ_le_succ below) (Nat.succ_le_succ below)))
    rw [Nat.succ_eq_add_one, valid.chunkCount_le_succ_iff below, Nat.mul_comm less,
      Nat.add_sub_cancel]
    exact (or_iff_left notSquare).symm

/-- Up to which size the words of each kind of message can be counted. -/
structure Counts (p : Params) (size : Nat) : Prop where
  chunk : p.chunkSize ≤ Words.maxCount
  query : p.puncturedLength ≤ Words.maxCount ↔ size ≤ Words.maxCount * (Words.maxCount + 1)
  answer : p.chunkCount ≤ Words.maxCount
    ↔ size ≤ Words.maxCount * (Words.maxCount - 1) ∨ size = Words.maxCount * Words.maxCount

theorem counts (valid : p.Valid) (small : p.dbSize < UInt64.size) : p.Counts p.dbSize := by
  have chunk : p.chunkSize ≤ Words.maxCount := Nat.le_of_lt_succ (valid.chunkSize_lt small)
  refine ⟨chunk, ?_, valid.chunkCount_le_self_iff chunk⟩
  rw [← valid.chunkCount_le_succ_iff chunk, puncturedLength, Nat.sub_le_iff_le_add]

end Params

/-! ### Messages of a server -/

/-- What a server sends, where its words are cut as `p` has it. -/
structure Server.Messages (p : Params) (s : Server) : Prop where
  chunk : ∀ number < p.chunkCount, ∃ words, s.chunk number = .ok words
    ∧ words.length = p.chunkSize ∧ s.chunkBytes number = .ok (Words.encode words)
    ∧ Words.decode (Words.encode words) = .ok words
  answer : ∀ {query bytes : Bytes}, (s.respond query).result = .ok bytes →
    ∃ offsets parities, Words.decode query = .ok offsets
      ∧ (s.process (offsets.map UInt64.toNat)).result = .ok parities
      ∧ parities.length = p.chunkCount ∧ bytes = Words.encode parities
      ∧ (Words.decode bytes = .ok parities ↔ p.chunkCount ≤ Words.maxCount)
      ∧ (Words.maxCount < p.chunkCount → ∃ why, Words.decode bytes = .error (.undecodable why))
  /-- No query has as many offsets as are asked for, so that none is answered. -/
  deaf : Words.maxCount < p.puncturedLength →
    ∀ query, ∃ cause, (s.respond query).result = .error cause

namespace Server

variable {s : Server}

/-- A list of offsets that was decoded is answered only if it can be counted. -/
theorem puncturedLength_le_of_ok {query bytes : Bytes}
    (told : (s.respond query).result = .ok bytes) : s.params.puncturedLength ≤ Words.maxCount := by
  obtain ⟨words, parities, decoded, processed, -⟩ := s.respond_eq_ok told
  have length := (fits_of_process_ok processed).length
  rw [List.length_map] at length
  rw [Params.puncturedLength, ← length]
  exact Nat.le_of_lt_succ (Words.encode_of_decode decoded).1

theorem messages {p : Params} (valid : p.Valid) (small : p.dbSize < UInt64.size)
    (same : p.dbSize = s.words.size) : s.Messages p := by
  have size : s.params.dbSize = p.dbSize := s.dbSize_eq.trans same.symm
  have chunkSize := s.valid.chunkSize_eq_of valid size
  have chunkCount := s.valid.chunkCount_eq_of valid size
  refine ⟨fun number within => ?_, fun {query bytes} told => ?_, fun many query => ?_⟩
  · have streamed : s.chunk number = .ok (s.paddedChunk number) :=
      if_neg (Nat.not_le_of_lt (chunkCount.symm ▸ within))
    have length : (s.paddedChunk number).length = p.chunkSize := by
      rw [paddedChunk, List.length_map, List.length_range, chunkSize]
    refine ⟨_, streamed, length, by rw [chunkBytes, streamed]; rfl, ?_⟩
    rw [Words.decode_encode_iff, length]
    exact (Params.counts valid small).chunk
  · obtain ⟨offsets, parities, decoded, processed, rfl⟩ := s.respond_eq_ok told
    obtain ⟨parities', told', length, -⟩ := process_of_fits (fits_of_process_ok processed)
    obtain rfl := Except.ok.inj (told'.symm.trans processed)
    rw [chunkCount] at length
    refine ⟨offsets, _, decoded, processed, length, rfl, ?_, ?_⟩
    · rw [← length]
      exact Words.decode_encode_iff
    · intro many
      exact ⟨_, Words.decode_encode_of_many (length.symm ▸ many)⟩
  · cases told : (s.respond query).result with
    | ok bytes =>
      -- What is answered has been decoded, so that its offsets could be counted.
      have few := puncturedLength_le_of_ok told
      rw [Params.puncturedLength, chunkCount] at few
      exact absurd few (Nat.not_le_of_lt many)
    | error cause => exact ⟨cause, rfl⟩

end Server

/-! ### Messages of a client -/

namespace Client

variable {σ K : Type} [Prf K]

/-- Bytes are the message for the query that a client waits for. -/
structure Message (p : Params) (client : Client σ K) (bytes : Bytes) (offsets : List Nat) :
    Prop where
  prepared : ∃ query, client.pending = some query ∧ client.prepare query = .ok offsets
  length : offsets.length = p.puncturedLength
  encodes : bytes = encodeOffsets offsets
  words : (offsets.map UInt64.ofNat).map UInt64.toNat = offsets
  decodes_iff : Words.decode bytes = .ok (offsets.map UInt64.ofNat)
    ↔ p.puncturedLength ≤ Words.maxCount
  refused : Words.maxCount < p.puncturedLength →
    ∃ why, Words.decode bytes = .error (.undecodable why)

variable {client : Client σ K} {query : Query} {offsets : List Nat}

theorem Consistent.message (consistent : client.Consistent)
    (small : client.params.dbSize < UInt64.size) (pending : client.pending = some query)
    (prepared : client.prepare query = .ok offsets) :
    Message client.params client (encodeOffsets offsets) offsets := by
  obtain ⟨length, below⟩ := consistent.prepared_fits pending prepared
  have count : (offsets.map UInt64.ofNat).length = client.params.puncturedLength := by
    rw [List.length_map, length]
  refine ⟨⟨query, pending, prepared⟩, length, rfl, Words.toNat_ofNat fun offset member => ?_, ?_,
    ?_⟩
  · have short := consistent.valid.chunkSize_lt small
    have inChunk := below offset member
    simp only [UInt32.size, UInt64.size] at short ⊢
    omega
  · rw [← count]
    exact Words.decode_encode_iff
  · intro many
    exact ⟨_, Words.decode_encode_of_many (count.symm ▸ many)⟩

variable [KeySource σ K]

theorem Consistent.message_query (consistent : client.Consistent)
    (small : client.params.dbSize < UInt64.size) {index : Nat} {bytes : Bytes}
    (asked : (Client.query index client).outcome = .ok bytes) :
    ∃ offsets, Message client.params (Client.query index client).state bytes offsets := by
  obtain ⟨query, selected⟩ := select_of_query_ok asked
  obtain ⟨selects, -, -⟩ := select_of_ok selected
  have waiting := consistent.waiting selects
  have pending := client.pending_awaiting query
  obtain ⟨offsets, prepared⟩ := waiting.prepare_ok pending
  rw [query_of_select_ok selected, prepared] at asked ⊢
  obtain rfl : encodeOffsets offsets = bytes := Outcome.ok.inj asked
  exact ⟨offsets, waiting.message small pending prepared⟩

variable [RandomSource σ]

theorem Consistent.message_random (consistent : client.Consistent)
    (small : client.params.dbSize < UInt64.size) {index : Nat} {bytes : Bytes}
    (asked : (randomQueryBytes client).outcome = .ok (index, bytes)) :
    ∃ offsets, Message client.params (randomQueryBytes client).state bytes offsets := by
  obtain ⟨query, selected⟩ := Action.ok_of_bind_ok asked
  obtain ⟨source, offsets, selects, -, prepared, eq⟩ := consistent.randomQueryBytes_of_ok selected
  have drawn : Change Peer.any client [] { client with source } := .draw source
  have waiting := (drawn.consistent consistent).waiting selects
  rw [eq] at asked ⊢
  obtain ⟨-, rfl⟩ := Prod.mk.inj (Outcome.ok.inj asked)
  exact ⟨offsets, waiting.message small (pending_awaiting _ query) prepared⟩

/-- **Counts.**  For every size that is a word, the words of a chunk can be counted, and every chunk
is read back.  Queries are read back up to one size and answers up to a lower one, with the square
of the greatest count as an exception; what is past its limit is always refused. -/
theorem messages_counted {size : Nat} {p : Params} (derived : p.Derived size)
    (small : size < UInt64.size) :
    p.Counts size
    ∧ (∀ s : Server, s.words.size = size → s.Messages p)
    ∧ ∀ (source : σ) (stream : List Chunk) (run : List Operation),
      (setup (K := K) p source stream).outcome = .ok () →
        let client := (setup (K := K) p source stream).state.after run
        (∀ index bytes, (Client.query index client).outcome = .ok bytes →
          ∃ offsets, Message p (Client.query index client).state bytes offsets)
        ∧ ∀ index bytes, (randomQueryBytes client).outcome = .ok (index, bytes) →
          ∃ offsets, Message p (randomQueryBytes client).state bytes offsets := by
  have valid := derived.valid
  have same := derived.dbSize_eq
  subst same
  refine ⟨Params.counts valid small, fun s same => s.messages valid small same.symm,
    fun source stream run ready => ?_⟩
  intro client
  have consistent : client.Consistent := consistent_after (consistent_setup valid ready) run
  have params : client.params = p := (params_after _ run).trans (setup_params ready)
  rw [← params] at small ⊢
  exact ⟨fun _ _ => consistent.message_query small, fun _ _ => consistent.message_random small⟩

/-- Four words are far from all limits. -/
theorem messages_counted_four :
    Small.params.Derived 4 ∧ 4 < UInt64.size ∧ Small.params.chunkCount ≤ Words.maxCount
    ∧ (∃ words, Small.server.chunk 1 = .ok words
      ∧ Words.decode (Words.encode words) = .ok words)
    ∧ ∃ offsets : List Nat, Words.decode (encodeOffsets [1]) = .ok (offsets.map UInt64.ofNat)
      ∧ offsets.length = 1 := by
  have small : 4 < UInt64.size := by decide
  obtain ⟨counts, server, sessions⟩ :=
    messages_counted (σ := Scripted Keystream) (K := LiteralKey) Small.derived small
  have asked : (Client.query 0 (Small.client.after [])).outcome = .ok (encodeOffsets [1]) := by
    decide
  obtain ⟨words, streamed, -, -, decoded⟩ := (server Small.server rfl).chunk 1 (by decide)
  obtain ⟨offsets, message⟩ :=
    (sessions Small.source Small.server.chunks [] Small.setup_ok).1 0 _ asked
  exact ⟨Small.derived, small, counts.answer.mpr (.inl (by decide)), ⟨words, streamed, decoded⟩,
    offsets, message.decodes_iff.mpr (by decide), message.length⟩

end Client

/-- What the greatest size is cut into. -/
def Params.greatest : Params :=
  ⟨UInt64.size - 1, UInt32.size - 1, UInt32.size + 1, 1, 1, 1⟩

/-- At the greatest size a query has one offset too many and an answer one parity more; their
counts read 0 and 1. -/
theorem uncounted_at_greatest :
    Params.withCapacities (UInt64.size - 1) 1 1 1 = .ok Params.greatest
    ∧ (∀ offsets : List Nat, offsets.length = Params.greatest.puncturedLength →
      Words.decode (encodeOffsets offsets)
        = .error (.undecodable (.lengthMismatch 0 (UInt32.size * wordWidth))))
    ∧ ∀ parities : List UInt64, parities.length = Params.greatest.chunkCount →
      Words.decode (Words.encode parities)
        = .error (.undecodable (.lengthMismatch 1 ((UInt32.size + 1) * wordWidth))) := by
  have root : sqrtFloor (UInt64.size - 1) = UInt32.size - 1 := by decide +kernel
  refine ⟨?_, fun offsets length => ?_, fun parities length => ?_⟩
  · simp only [Params.withCapacities, root]
    rfl
  · have count : (offsets.map UInt64.ofNat).length = UInt32.size := by
      rw [List.length_map, length]
      rfl
    rw [encodeOffsets, Words.decode_encode_of_many (by rw [count]; decide), count]
    rfl
  · have count : parities.length = UInt32.size + 1 := length
    rw [Words.decode_encode_of_many (by rw [count]; decide), count]
    rfl

end PrivateRetrieval
