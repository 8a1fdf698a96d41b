/-
Which bytes a server answers.

A query is bytes from anyone.  The server takes them for a list of words and the words for offsets,
and there are two things to object to in either step.  What becomes of them can be told from the
bytes alone: by how many they are, by the count that they declare and by the numbers behind it:

* **`Words.spelled`**, **`Words.numbers`** — the number at a place behind the count, and all that
  are declared;
* **`Server.WellFormed`** — one offset for every chunk but one, each within its chunk, as bytes;
* **`Server.Refuses`** — the first thing that is wrong with bytes; if there is none, they are well
  formed (`Server.wellFormed_or_refuses`);
* **`Server.Answers`** — what well-formed bytes are answered, and that no client objects to it;
* **`Server.accepted_queries`** — this is so for every database and all bytes.
-/
import PrivateRetrieval.Proofs.Readiness

namespace PrivateRetrieval

namespace Reply

variable {α β : Type} {reply : Reply α} {next : α → Reply β}

theorem bind_of_ok {value : α} (h : reply.result = .ok value) :
    (reply >>= next).result = (next value).result := by
  show (bind reply next).result = _
  simp only [bind, h]

theorem bind_of_error {cause : Error} (h : reply.result = .error cause) :
    (reply >>= next).result = .error cause := by
  show (bind reply next).result = _
  simp only [bind, h]

end Reply

/-! ### Numbers behind a count -/

namespace Words

variable {bytes : Bytes}

/-- The number that the bytes at a place behind the count spell. -/
def spelled (bytes : Bytes) (place : Nat) : Nat :=
  LittleEndian.decode ((bytes.drop (4 + 8 * place)).take 8)

/-- The numbers behind the count, as many as it declares. -/
def numbers (bytes : Bytes) : List Nat := (List.range (declared bytes)).map (spelled bytes)

theorem length_numbers (bytes : Bytes) : (numbers bytes).length = declared bytes := by
  rw [numbers, List.length_map, List.length_range]

theorem numbers_getElem?_eq_some {place number : Nat} :
    (numbers bytes)[place]? = some number
      ↔ place < declared bytes ∧ spelled bytes place = number := by
  simp only [numbers, List.getElem?_map, Option.map_eq_some_iff, List.getElem?_eq_some_iff,
    List.getElem_range, List.length_range]
  constructor
  · rintro ⟨_, ⟨within, rfl⟩, here⟩
    exact ⟨within, here⟩
  · rintro ⟨within, here⟩
    exact ⟨place, ⟨within, rfl⟩, here⟩

/-- As many bytes as are declared are decoded, to the numbers that they spell. -/
theorem decode_of_measured (measured : bytes.length = 4 + 8 * declared bytes) :
    ∃ words, decode bytes = .ok words ∧ words.map UInt64.toNat = numbers bytes := by
  have whole : bytes.length = prefixWidth + declared bytes * wordWidth := by
    rw [measured, Nat.mul_comm]
    rfl
  refine ⟨decodeBody (declared bytes) (bytes.drop prefixWidth), ?_, ?_⟩
  · rw [decode_eq, if_neg (by rw [whole]; omega), if_neg (fun differs => differs whole)]
  · rw [decodeBody_eq, List.map_map]
    refine List.map_congr_left fun place _ => ?_
    rw [Function.comp_apply, List.drop_drop, Nat.mul_comm]
    exact UInt64.toNat_ofNat_of_lt' (LittleEndian.decode_take_lt wordWidth _)

end Words

namespace Server

/-! ### Well-formed queries -/

/-- Bytes of a query that the server can answer. -/
structure WellFormed (s : Server) (bytes : Bytes) : Prop where
  length : bytes.length = 4 + 8 * (s.params.chunkCount - 1)
  count : bytes.take 4 = LittleEndian.encode 4 (s.params.chunkCount - 1)
  below : ∀ place < s.params.chunkCount - 1, Words.spelled bytes place < s.params.chunkSize

/-- The first thing that is wrong with bytes. -/
inductive Refuses (s : Server) (bytes : Bytes) : Error → Prop where
  | short (few : bytes.length < 4) : Refuses s bytes (.undecodable (.shortPrefix bytes.length))
  | mismatch (counted : 4 ≤ bytes.length) (wrong : bytes.length ≠ 4 + 8 * Words.declared bytes) :
    Refuses s bytes (.undecodable (.lengthMismatch (Words.declared bytes) (bytes.length - 4)))
  | miscount (measured : bytes.length = 4 + 8 * Words.declared bytes)
    (wrong : Words.declared bytes ≠ s.params.chunkCount - 1) :
    Refuses s bytes (.offsetCount (s.params.chunkCount - 1) (Words.declared bytes))
  /-- A number past the end of a chunk, where all in front of it are within. -/
  | past {place : Nat} (measured : bytes.length = 4 + 8 * Words.declared bytes)
    (right : Words.declared bytes = s.params.chunkCount - 1)
    (inside : place < s.params.chunkCount - 1)
    (large : s.params.chunkSize ≤ Words.spelled bytes place)
    (before : ∀ earlier < place, Words.spelled bytes earlier < s.params.chunkSize) :
    Refuses s bytes (.offsetOutOfRange place (Words.spelled bytes place) s.params.chunkSize)

variable {s : Server} {bytes : Bytes}

/-- Well-formed bytes are as many as they declare, and their numbers are offsets that fit. -/
theorem wellFormed_iff (few : s.params.chunkCount < UInt32.size) : s.WellFormed bytes
    ↔ bytes.length = 4 + 8 * Words.declared bytes ∧ s.Fits (Words.numbers bytes) := by
  constructor
  · rintro ⟨length, count, below⟩
    have declared : Words.declared bytes = s.params.chunkCount - 1 := by
      have fits : s.params.chunkCount - 1 < LittleEndian.capacity 4 :=
        Nat.lt_of_le_of_lt (Nat.sub_le ..) few
      rw [← LittleEndian.decode_encode fits, ← count]
      rfl
    refine ⟨by rw [length, declared], (Words.length_numbers bytes).trans declared, ?_⟩
    intro offset member
    obtain ⟨place, inside, rfl⟩ := List.mem_map.mp member
    exact below place (declared ▸ List.mem_range.mp inside)
  · rintro ⟨measured, length, below⟩
    rw [Words.length_numbers] at length
    have front : (bytes.take 4).length = 4 := List.length_take_of_le (by omega)
    have count := LittleEndian.encode_decode (bytes.take 4)
    rw [front] at count
    refine ⟨by rw [measured, length], ?_, fun place inside => below _ ?_⟩
    · rw [← length]
      exact count.symm
    · exact List.mem_map_of_mem (List.mem_range.mpr (length.symm ▸ inside))

/-- Only one position can be the first that is too large. -/
theorem FirstPast.unique {offsets : List Nat} {position offset position' offset' : Nat}
    (first : s.FirstPast offsets position offset)
    (first' : s.FirstPast offsets position' offset') : position = position' ∧ offset = offset' := by
  rcases Nat.lt_trichotomy position position' with before | rfl | after
  · exact absurd first.past (Nat.not_le_of_lt (first'.before _ before first.here))
  · exact ⟨rfl, Option.some.inj (first.here.symm.trans first'.here)⟩
  · exact absurd first'.past (Nat.not_le_of_lt (first.before _ after first'.here))

theorem process_of_firstPast {offsets : List Nat} {position offset : Nat}
    (length : offsets.length = s.params.chunkCount - 1)
    (first : s.FirstPast offsets position offset) : (s.process offsets).result
      = .error (.offsetOutOfRange position offset s.params.chunkSize) := by
  have unfit : ¬ s.Fits offsets := fun fits =>
    absurd (fits.below offset (List.mem_of_getElem? first.here)) (Nat.not_lt_of_le first.past)
  obtain ⟨position', offset', first', refused⟩ := process_of_past length unfit
  obtain ⟨rfl, rfl⟩ := first.unique first'
  exact refused

/-- Bytes are well formed, or there is a first thing that is wrong with them. -/
theorem wellFormed_or_refuses (few : s.params.chunkCount < UInt32.size) (bytes : Bytes) :
    s.WellFormed bytes ∨ ∃ cause, s.Refuses bytes cause := by
  by_cases short : bytes.length < 4
  · exact .inr ⟨_, .short short⟩
  by_cases measured : bytes.length = 4 + 8 * Words.declared bytes
  · by_cases right : Words.declared bytes = s.params.chunkCount - 1
    · by_cases fits : s.Fits (Words.numbers bytes)
      · exact .inl ((wellFormed_iff few).mpr ⟨measured, fits⟩)
      obtain ⟨place, offset, first, -⟩ :=
        process_of_past ((Words.length_numbers bytes).trans right) fits
      obtain ⟨inside, rfl⟩ := Words.numbers_getElem?_eq_some.mp first.here
      refine .inr ⟨_, .past measured right (right ▸ inside) first.past fun earlier lt => ?_⟩
      have there := Words.numbers_getElem?_eq_some.mpr ⟨Nat.lt_trans lt inside, rfl⟩
      exact first.before earlier lt there
    · exact .inr ⟨_, .miscount measured right⟩
  · exact .inr ⟨_, .mismatch (Nat.le_of_not_lt short) measured⟩

/-! ### Answers -/

theorem respond_of_undecoded {cause : Error} (undecoded : Words.decode bytes = .error cause) :
    (s.respond bytes).result = .error cause := by
  rw [respond, undecoded]
  rfl

theorem respond_of_measured (measured : bytes.length = 4 + 8 * Words.declared bytes) :
    s.respond bytes
      = s.process (Words.numbers bytes) >>= fun parities => pure (Words.encode parities) := by
  obtain ⟨words, decoded, numbers⟩ := Words.decode_of_measured measured
  rw [s.respond_of_decoded decoded, numbers]

theorem respond_of_refuses {cause : Error} (refuses : s.Refuses bytes cause) :
    (s.respond bytes).result = .error cause := by
  cases refuses with
  | short few => exact respond_of_undecoded (if_pos few)
  | mismatch counted wrong =>
    have wrong : bytes.length ≠ prefixWidth + Words.declared bytes * wordWidth := by
      rwa [Nat.mul_comm]
    have enough : ¬ bytes.length < prefixWidth := Nat.not_lt_of_le counted
    refine respond_of_undecoded ?_
    rw [Words.decode_eq, if_neg enough, if_pos wrong]
    rfl
  | miscount measured wrong =>
    rw [← Words.length_numbers] at wrong ⊢
    rw [respond_of_measured measured, Reply.bind_of_error (process_of_miscount wrong)]
  | past measured right inside large before =>
    have first : s.FirstPast (Words.numbers bytes) _ _ :=
      ⟨Words.numbers_getElem?_eq_some.mpr ⟨right.symm ▸ inside, rfl⟩, large,
        fun earlier lt _ there => (Words.numbers_getElem?_eq_some.mp there).2 ▸ before earlier lt⟩
    have length := (Words.length_numbers bytes).trans right
    rw [respond_of_measured measured, Reply.bind_of_error (process_of_firstPast length first)]

end Server

/-! ### Clients -/

namespace Client

variable {σ K : Type} {client : Client σ K} {query : Query} {parities : List UInt64}
  {cause : Error}

theorem pendingHint_of_error (h : client.pendingHint query = .error cause) :
    cause = .noPendingQuery := by
  unfold pendingHint at h
  split at h
  · exact (Outcome.error.inj h).symm
  split at h
  · exact absurd h (by simp)
  · exact (Outcome.error.inj h).symm

/-- As many parities as there are chunks are refused for want of a query, and not for their
number. -/
theorem answer_of_error (length : parities.length = client.params.chunkCount)
    (h : client.answer query parities = .error cause) : cause = .noPendingQuery := by
  rw [answer] at h
  cases held : client.pendingHint query with
  | ok hint =>
    rw [held] at h
    simp only [Outcome.bind, if_neg (fun differs : _ ≠ _ => differs length)] at h
    split at h
    · exact absurd h (by simp)
    · exact absurd h (by simp)
  | error refused =>
    rw [held] at h
    exact Outcome.error.inj h ▸ pendingHint_of_error held
  | fault broken =>
    rw [held] at h
    exact absurd h (by simp [Outcome.bind])

theorem processResponse_unopposed {response : Bytes} (pending : client.pending = some query)
    (decoded : Words.decode response = .ok parities)
    (length : parities.length = client.params.chunkCount)
    (ended : (processResponse response client).outcome = .error cause) :
    ¬ RefusesAnswer client.params cause := by
  have eq : processResponse response client = recover query parities client := by
    rw [processResponse_of_pending pending, decoded]
  have other : cause = .noPendingQuery ∨ ∃ chunk index, cause = .backupsExhausted chunk index := by
    rw [eq] at ended
    cases answered : client.answer query parities with
    | ok word =>
      rcases answered_of_answer answered with ⟨hint, position, -, kept, -⟩ | ⟨-, exhausted, -⟩
      · exact absurd (kept.symm.trans ended) (by simp)
      · exact .inr ⟨_, _, Outcome.error.inj (ended.symm.trans exhausted)⟩
    | error refused =>
      rw [recover_of_error answered] at ended
      exact .inl (Outcome.error.inj ended ▸ answer_of_error length answered)
    | fault broken =>
      rw [recover_of_fault answered] at ended
      exact absurd ended (by simp)
  rintro (⟨why, rfl⟩ | ⟨found, rfl⟩)
  · exact absurd other (by simp)
  · exact absurd other (by simp)

end Client

/-! ### Answers to well-formed queries -/

namespace Server

variable {s : Server} {bytes : Bytes}

/-- What a server answers to well-formed bytes. -/
structure Answers (s : Server) (bytes answer : Bytes) : Prop where
  length : answer.length = 4 + 8 * s.params.chunkCount
  decodes : ∃ parities, (s.process (Words.numbers bytes)).result = .ok parities
    ∧ Words.decode answer = .ok parities
  /-- No client that waits for as many parities objects to its form. -/
  unopposed : ∀ {σ K : Type} {client : Client σ K} {query : Query} {cause : Error},
    client.pending = some query → client.params.chunkCount = s.params.chunkCount →
      (Client.processResponse answer client).outcome = .error cause →
        ¬ Client.RefusesAnswer client.params cause
  /-- A session that waits for them, whatever has happened in it, keeps the word they leave. -/
  taken : ∀ {σ K : Type} [Prf K] [KeySource σ K] [RandomSource σ] {size : Nat} {p : Params}
    {source : σ} {stream : List Chunk} {run : List Operation} {query : Query},
    p.Derived size → (Client.setup (K := K) p source stream).outcome = .ok () →
      let client := (Client.setup (K := K) p source stream).state.after run
      client.pending = some query → p.chunkCount = s.params.chunkCount →
        ∃ word, client.Answered query word (Client.processResponse answer client).outcome
          (Client.processResponse answer client).state

theorem respond_of_wellFormed (few : s.params.chunkCount < UInt32.size)
    (formed : s.WellFormed bytes) :
    ∃ answer, (s.respond bytes).result = .ok answer ∧ s.Answers bytes answer := by
  obtain ⟨measured, fits⟩ := (wellFormed_iff few).mp formed
  obtain ⟨parities, told, length, -⟩ := process_of_fits fits
  have decoded : Words.decode (Words.encode parities) = .ok parities :=
    Words.decode_encode (Nat.lt_of_le_of_lt (Nat.le_of_eq length) few)
  refine ⟨Words.encode parities, ?_, ?_, ⟨parities, told, decoded⟩, ?_, ?_⟩
  · rw [respond_of_measured measured, Reply.bind_of_ok told]
    rfl
  · rw [Words.length_encode, length, Nat.mul_comm]
    rfl
  · intro σ K client query cause pending count ended
    exact Client.processResponse_unopposed pending decoded (length.trans count.symm) ended
  · intro σ K _ _ _ size p source stream run query derived ready client pending count
    have consistent : client.Consistent :=
      Client.consistent_after (Client.consistent_setup derived.valid ready) run
    have params : client.params = p := (Client.params_after _ run).trans (Client.setup_params ready)
    have whole : parities.length = client.params.chunkCount := by rw [length, params, count]
    obtain ⟨word, leaves⟩ := (consistent.awaits pending).leaves consistent.valid whole
    refine ⟨word, ?_⟩
    rw [Client.processResponse_of_pending pending, decoded]
    exact Client.answered_of_answer (leaves.answer pending whole)

/-- What becomes of bytes that are sent to a server. -/
structure Responds (s : Server) (bytes : Bytes) (result : Except Error Bytes) : Prop where
  ok_iff : (∃ answer, result = .ok answer) ↔ s.WellFormed bytes
  answers : ∀ {answer}, result = .ok answer → s.Answers bytes answer
  error_iff : ∀ {cause}, result = .error cause ↔ s.Refuses bytes cause

theorem responds (few : s.params.chunkCount < UInt32.size) (bytes : Bytes) :
    s.Responds bytes (s.respond bytes).result := by
  rcases wellFormed_or_refuses few bytes with formed | ⟨cause, refuses⟩
  · obtain ⟨answer, told, answers⟩ := respond_of_wellFormed few formed
    rw [told]
    refine ⟨iff_of_true ⟨answer, rfl⟩ formed, fun same => Except.ok.inj same ▸ answers,
      fun {cause} => iff_of_false (by simp) fun refuses => ?_⟩
    exact absurd (told.symm.trans (respond_of_refuses refuses)) (by simp)
  · have told := respond_of_refuses refuses
    rw [told]
    refine ⟨iff_of_false (by simp) fun formed => ?_, fun ok => absurd ok (by simp),
      fun {other} => ⟨fun same => Except.error.inj same ▸ refuses, fun refuses' => ?_⟩⟩
    · obtain ⟨answer, told', -⟩ := respond_of_wellFormed few formed
      exact absurd (told.symm.trans told') (by simp)
    · -- Bytes have one response, and so only one thing can be the first that is wrong.
      exact told.symm.trans (respond_of_refuses refuses')

/-- **Accepted queries.**  As long as the chunks can be counted in front of a message, a server
answers just the bytes that are well formed, and any others are refused for the first thing that is
wrong with them. -/
theorem accepted_queries {words : Array UInt64} (nonempty : 0 < words.size) :
    ∃ s, ofWords words = .ok s ∧ s.words = words
      ∧ (s.params.chunkCount < UInt32.size →
        ∀ bytes, s.Responds bytes (s.respond bytes).result) := by
  obtain ⟨s, made, same⟩ := ofWords_ok nonempty
  exact ⟨s, made, same, responds⟩

/-- Two chunks of two words: a query is one offset, and there is one way for each cause to go
wrong. -/
theorem accepted_queries_of_four_words :
    ∃ s, ofWords #[10, 20, 30, 40] = .ok s
      ∧ (∃ answer, (s.respond (Words.encode [1])).result = .ok answer ∧ answer.length = 20)
      ∧ (s.respond [1, 0, 0]).result = .error (.undecodable (.shortPrefix 3))
      ∧ (s.respond [1, 0, 0, 0, 9]).result = .error (.undecodable (.lengthMismatch 1 1))
      ∧ (s.respond (Words.encode [1, 1])).result = .error (.offsetCount 1 2)
      ∧ (s.respond (Words.encode [2])).result = .error (.offsetOutOfRange 0 2 2) := by
  have nonempty : 0 < (#[10, 20, 30, 40] : Array UInt64).size := by decide
  obtain ⟨s, made, same, responds⟩ := accepted_queries nonempty
  obtain rfl : s = Small.server := eq_of_words same
  have responds := responds (by decide)
  have formed : Small.server.WellFormed (Words.encode [1]) := ⟨by decide, by decide, by decide⟩
  obtain ⟨answer, told⟩ := (responds _).ok_iff.mpr formed
  refine ⟨_, made, ⟨answer, told, ((responds _).answers told).length⟩, ?_, ?_, ?_, ?_⟩
  · exact (responds _).error_iff.mpr (.short (by decide))
  · exact (responds _).error_iff.mpr (.mismatch (by decide) (by decide))
  · exact (responds _).error_iff.mpr (.miscount (by decide) (by decide))
  · have past : Small.server.Refuses (Words.encode [2]) (.offsetOutOfRange 0 2 2) :=
      .past (by decide) (by decide) (by decide) (by decide) (by decide)
    exact (responds _).error_iff.mpr past

end Server

end PrivateRetrieval
