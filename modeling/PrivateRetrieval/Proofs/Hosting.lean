/-
What the host sends on a connection.

A reader may send any bytes.  The host cuts them into frames and answers one query after
the other, until the stream ends or the server refuses.  So its side of the connection is known
from the frames that come in:

* **`Host.Answered`** — the answers to the queries of a stream, and how the loop ends
  (`Host.answered_of_splits`);
* **`Host.answerWithin`** — the loop with a bound on its rounds, which one more than there are
  frames is enough for (`Host.answerWithin_of_splits`);
* **`Host.Served`** — all that is sent on a connection, as frames;
* **`Host.connection_served`** — every connection is served so.
-/
import PrivateRetrieval.Proofs.Candidates
import PrivateRetrieval.Proofs.Framing
import PrivateRetrieval.Proofs.Session
import PrivateRetrieval.Program.Host

namespace PrivateRetrieval

/-- The server answers the query. -/
def Server.accepts (s : Server) (query : Bytes) : Bool := (s.respond query).result.isOk

namespace Server

variable {s : Server} {query : Bytes}

theorem accepts_of_ok {response : Bytes} (told : (s.respond query).result = .ok response) :
    s.accepts query = true := by
  rw [accepts, told]
  rfl

theorem accepts_of_error {cause : Error} (refused : (s.respond query).result = .error cause) :
    s.accepts query = false := by
  rw [accepts, refused]
  rfl

/-- An answer has a word for every chunk. -/
theorem length_of_respond {response : Bytes} (told : (s.respond query).result = .ok response) :
    response.length = 4 + 8 * s.params.chunkCount := by
  obtain ⟨words, parities, -, processed, rfl⟩ := s.respond_eq_ok told
  obtain ⟨parities', told', length, -⟩ := process_of_fits (fits_of_process_ok processed)
  obtain rfl := Except.ok.inj (told'.symm.trans processed)
  rw [Words.length_encode, length, Nat.mul_comm]
  rfl

/-- A chunk in bytes has a word for every place in it. -/
theorem length_of_chunk {words : Chunk} (member : words ∈ s.chunks) :
    (Words.encode words).length = 4 + 8 * s.params.chunkSize := by
  rw [Words.length_encode, s.length_of_mem_chunks member, Nat.mul_comm]
  rfl

/-- The chunks in bytes are those that the host asks for, one by one. -/
theorem chunkBytes_eq (s : Server) :
    (s.chunks.map Words.encode).map Except.ok
      = (List.range s.params.chunkCount).map s.chunkBytes := by
  rw [chunks, List.map_map, List.map_map]
  refine List.map_congr_left fun number member => ?_
  rw [chunkBytes, chunk, if_neg (Nat.not_le_of_lt (List.mem_range.mp member))]
  rfl

end Server

namespace Host

variable {s : Server} {incoming stream rest query : Bytes} {bodies : List Bytes}

/-! ### Rounds of the loop -/

/-- What is served in a round that answers a query, and in all rounds after it. -/
def Service.answering (query response : Bytes) (events : List Event) (later : Service) : Service :=
  { sent := Frame.encode response ++ later.sent
    events := events ++ .answered query.length response.length :: later.events
    result := later.result }

/-- The loop with at most `count` rounds, if it has ended by then. -/
def answerWithin (s : Server) : (count : Nat) → (incoming : Bytes) → Option Service
  | 0, _ => none
  | count + 1, incoming =>
    match Frame.read incoming with
    | .noLength => some ⟨[], [], .ok ()⟩
    | .cutBody => some ⟨[], [], .error .endOfStream⟩
    | .message query rest =>
      let reply := s.respond query
      match reply.result with
      | .error cause => some ⟨[], reply.events, .error (.refused cause)⟩
      | .ok response =>
        (answerWithin s count rest).map (Service.answering query response reply.events)

/-- One round: the rest of the stream is left to the rounds after it. -/
theorem answerAll_eq (s : Server) (incoming : Bytes) : answerAll s incoming
    = match Frame.read incoming with
      | .noLength => ⟨[], [], .ok ()⟩
      | .cutBody => ⟨[], [], .error .endOfStream⟩
      | .message query rest =>
        match (s.respond query).result with
        | .error cause => ⟨[], (s.respond query).events, .error (.refused cause)⟩
        | .ok response =>
          .answering query response (s.respond query).events (answerAll s rest) := by
  rw [answerAll]
  split
  · rename_i front
    rw [front]
  · rename_i front
    rw [front]
  · rename_i query rest front
    rw [front]
    rfl

theorem answerAll_of_unfinished (s : Server) (unfinished : Frame.Unfinished rest) :
    answerAll s rest = ⟨[], [], if rest.length < 4 then .ok () else .error .endOfStream⟩ := by
  rw [answerAll_eq, Frame.read_of_unfinished unfinished, Frame.lengthWidth]
  by_cases lengthless : rest.length < 4
  · rw [if_pos lengthless, if_pos lengthless]
  · rw [if_neg lengthless, if_neg lengthless]

theorem answerAll_of_refused (short : query.length < UInt32.size) {cause : Error}
    (refused : (s.respond query).result = .error cause) (stream : Bytes) :
    answerAll s (Frame.encode query ++ stream)
      = ⟨[], (s.respond query).events, .error (.refused cause)⟩ := by
  rw [answerAll_eq, Frame.read_encode_append short]
  dsimp only
  rw [refused]

theorem answerAll_of_answered (short : query.length < UInt32.size) {response : Bytes}
    (told : (s.respond query).result = .ok response) (stream : Bytes) :
    answerAll s (Frame.encode query ++ stream)
      = .answering query response (s.respond query).events (answerAll s stream) := by
  rw [answerAll_eq, Frame.read_encode_append short]
  dsimp only
  rw [told]

/-- A round for every frame and one that meets the end are enough. -/
theorem answerWithin_of_splits (splits : Frame.Splits incoming bodies rest) :
    answerWithin s (bodies.length + 1) incoming = some (answerAll s incoming) := by
  induction splits with
  | @rest rest unfinished =>
    rw [answerWithin, answerAll_eq, Frame.read_of_unfinished unfinished]
    by_cases lengthless : rest.length < Frame.lengthWidth
    · rw [if_pos lengthless]
    · rw [if_neg lengthless]
  | @frame query stream rest bodies short later ih =>
    rw [List.length_cons, answerWithin, Frame.read_encode_append short]
    dsimp only
    cases told : (s.respond query).result with
    | error cause => rw [answerAll_of_refused short told]
    | ok response =>
      dsimp only
      rw [ih, answerAll_of_answered short told, Option.map_some]

/-! ### The whole loop -/

/-- What is served to a reader that sends these frames, and then bytes that are no whole frame. -/
structure Answered (s : Server) (bodies : List Bytes) (rest : Bytes) (online : Service) : Prop where
  /-- The answers to all queries before the first that is refused. -/
  answers : ∃ answers : List Bytes, online.sent = answers.flatMap Frame.encode
    ∧ answers.map Except.ok = (bodies.takeWhile s.accepts).map fun query => (s.respond query).result
  hungUp : (∀ query ∈ bodies, s.accepts query) → rest.length < 4 → online.result = .ok ()
  cut : (∀ query ∈ bodies, s.accepts query) → 4 ≤ rest.length →
    online.result = .error .endOfStream
  refused : ∀ {front query later}, bodies = front ++ query :: later →
    (∀ earlier ∈ front, s.accepts earlier) → ∀ {cause}, (s.respond query).result = .error cause →
    online.result = .error (.refused cause)

theorem answered_nil (s : Server) (unfinished : Frame.Unfinished rest) :
    Answered s [] rest (answerAll s rest) := by
  rw [answerAll_of_unfinished s unfinished]
  refine ⟨⟨[], rfl, rfl⟩, fun _ lengthless => if_pos lengthless, fun _ cut => if_neg (by omega), ?_⟩
  intro front query later split
  exact absurd split (by simp)

theorem answered_of_refused {cause : Error} (refused : (s.respond query).result = .error cause)
    (events : List Event) :
    Answered s (query :: bodies) rest ⟨[], events, .error (.refused cause)⟩ := by
  have first := Server.accepts_of_error refused
  have never : ¬ ∀ earlier ∈ query :: bodies, s.accepts earlier := fun all => by
    simp [first] at all
  refine ⟨⟨[], rfl, ?_⟩, fun all => absurd all never, fun all => absurd all never, ?_⟩
  · rw [List.takeWhile_cons_of_neg (by simp [first])]
    rfl
  · intro front other later split before cause' refused'
    -- Nothing comes before the first query, which is not accepted.
    cases front with
    | nil =>
      obtain ⟨rfl, -⟩ := List.cons_eq_cons.mp split
      rw [Except.error.inj (refused.symm.trans refused')]
    | cons head front =>
      obtain ⟨rfl, -⟩ := List.cons_eq_cons.mp split
      exact absurd (before query List.mem_cons_self) (by simp [first])

theorem Answered.cons {online : Service} (answered : Answered s bodies rest online)
    {response : Bytes} (told : (s.respond query).result = .ok response) (events : List Event) :
    Answered s (query :: bodies) rest (.answering query response events online) := by
  have first := Server.accepts_of_ok told
  obtain ⟨⟨answers, sent, results⟩, hungUp, cut, refused⟩ := answered
  refine ⟨⟨response :: answers, ?_, ?_⟩, ?_, ?_, ?_⟩
  · rw [Service.answering, sent, List.flatMap_cons]
  · rw [List.takeWhile_cons_of_pos first, List.map_cons, List.map_cons, results, told]
  · exact fun all => hungUp fun later member => all later (List.mem_cons_of_mem query member)
  · exact fun all => cut fun later member => all later (List.mem_cons_of_mem query member)
  · intro front other later split before cause failed
    cases front with
    | nil =>
      obtain ⟨rfl, -⟩ := List.cons_eq_cons.mp split
      exact absurd (told.symm.trans failed) (by simp)
    | cons head front =>
      obtain ⟨rfl, tail⟩ := List.cons_eq_cons.mp split
      exact refused tail (fun earlier member => before earlier (List.mem_cons_of_mem _ member))
        failed

/-- Frame by frame, the loop answers what the stream asks. -/
theorem answered_of_splits (splits : Frame.Splits incoming bodies rest) :
    Answered s bodies rest (answerAll s incoming) := by
  induction splits with
  | rest unfinished => exact answered_nil s unfinished
  | @frame query stream rest bodies short later ih =>
    cases told : (s.respond query).result with
    | error cause =>
      rw [answerAll_of_refused short told]
      exact answered_of_refused told _
    | ok response =>
      rw [answerAll_of_answered short told]
      exact ih.cons told _

/-- Either all queries are accepted, or there is a first one that is not. -/
theorem accepted_or_refused (s : Server) (bodies : List Bytes) :
    (∀ query ∈ bodies, s.accepts query) ∨ ∃ front query later cause,
      bodies = front ++ query :: later ∧ (∀ earlier ∈ front, s.accepts earlier)
        ∧ (s.respond query).result = .error cause := by
  cases found : bodies.find? (fun query => !s.accepts query) with
  | none =>
    refine .inl fun query member => ?_
    simpa using List.find?_eq_none.mp found query member
  | some query =>
    obtain ⟨refused, front, later, split, before⟩ := List.find?_eq_some_iff_append.mp found
    cases told : (s.respond query).result with
    | ok response => exact absurd refused (by simp [Server.accepts_of_ok told])
    | error cause =>
      exact .inr ⟨front, query, later, cause, split, by simpa using before, told⟩

/-- The loop ends well just if nothing is refused and nothing is cut short. -/
theorem Answered.ok_iff {online : Service} (answered : Answered s bodies rest online) :
    online.result = .ok () ↔ (∀ query ∈ bodies, s.accepts query) ∧ rest.length < 4 := by
  constructor
  · intro ended
    rcases accepted_or_refused s bodies with all | ⟨front, query, later, cause, split, before, told⟩
    · refine ⟨all, Nat.lt_of_not_le fun cut => ?_⟩
      exact absurd (ended.symm.trans (answered.cut all cut)) (by simp)
    · exact absurd (ended.symm.trans (answered.refused split before told)) (by simp)
  · rintro ⟨all, lengthless⟩
    exact answered.hungUp all lengthless

/-! ### Connections -/

/-- All that is sent on a connection whose incoming bytes are these frames and then bytes that are
no whole frame, and how it ends. -/
structure Served (s : Server) (bodies : List Bytes) (rest : Bytes) (service : Service) : Prop where
  /-- The handshake, the chunks in order, and the answers to all queries before the first that is
  refused; a reader can tell these messages apart. -/
  sent : ∃ chunks answers : List Bytes,
    chunks.map Except.ok = (List.range s.params.chunkCount).map s.chunkBytes
      ∧ answers.map Except.ok
        = (bodies.takeWhile s.accepts).map (fun query => (s.respond query).result)
      ∧ service.sent = Handshake.encode s.params ++ (chunks ++ answers).flatMap Frame.encode
      ∧ Frame.Splits ((chunks ++ answers).flatMap Frame.encode) (chunks ++ answers) []
  ok_iff : service.result = .ok () ↔ (∀ query ∈ bodies, s.accepts query) ∧ rest.length < 4
  refused : ∀ {front query later}, bodies = front ++ query :: later →
    (∀ earlier ∈ front, s.accepts earlier) → ∀ {cause}, (s.respond query).result = .error cause →
    service.result = .error (.refused cause)
  cut : (∀ query ∈ bodies, s.accepts query) → 4 ≤ rest.length →
    service.result = .error .endOfStream

/-- Every answer is one that the server gave. -/
theorem told_of_mem {queries answers : List Bytes}
    (told : answers.map Except.ok = queries.map fun query => (s.respond query).result)
    {response : Bytes} (member : response ∈ answers) :
    ∃ query, (s.respond query).result = .ok response := by
  have listed : Except.ok response ∈ queries.map fun query => (s.respond query).result :=
    told ▸ List.mem_map_of_mem member
  obtain ⟨query, -, result⟩ := List.mem_map.mp listed
  exact ⟨query, result⟩

theorem served (shortChunks : 4 + 8 * s.params.chunkSize < UInt32.size)
    (shortAnswers : 4 + 8 * s.params.chunkCount < UInt32.size)
    (splits : Frame.Splits incoming bodies rest) :
    Served s bodies rest (serve s (offline s.params s.chunks) incoming) := by
  have online : Answered s bodies rest (answerAll s incoming) := answered_of_splits splits
  obtain ⟨answers, sent, results⟩ := online.answers
  refine ⟨⟨s.chunks.map Words.encode, answers, s.chunkBytes_eq, results, ?_, ?_⟩, online.ok_iff,
    online.refused, online.cut⟩
  · rw [serve, offline, List.flatMap_append, List.flatMap_map, List.append_assoc, sent]
  · rw [← List.append_nil ((s.chunks.map Words.encode ++ answers).flatMap Frame.encode)]
    refine Frame.splits_of_short (fun message member => ?_) Frame.unfinished_nil
    rcases List.mem_append.mp member with chunk | answer
    · obtain ⟨words, streamed, rfl⟩ := List.mem_map.mp chunk
      rw [Server.length_of_chunk streamed]
      exact shortChunks
    · obtain ⟨query, told⟩ := told_of_mem results answer
      rw [Server.length_of_respond told]
      exact shortAnswers

/-- **Every connection is served as its frames say.**  Whatever a reader sends, it is cut into
frames in one way, and after as many rounds as there are frames, and one more, the host has sent
the offline phase and the answers to all queries before the first that is refused. -/
theorem connection_served (shortChunks : 4 + 8 * s.params.chunkSize < UInt32.size)
    (shortAnswers : 4 + 8 * s.params.chunkCount < UInt32.size) (incoming : Bytes) :
    ∃ bodies rest, Frame.Splits incoming bodies rest
      ∧ (∀ {bodies' rest'}, Frame.Splits incoming bodies' rest' → bodies' = bodies ∧ rest' = rest)
      ∧ Served s bodies rest (serve s (offline s.params s.chunks) incoming)
      ∧ answerWithin s (bodies.length + 1) incoming = some (answerAll s incoming)
      ∧ 4 * bodies.length + rest.length ≤ incoming.length := by
  obtain ⟨bodies, rest, splits⟩ := Frame.exists_splits incoming
  exact ⟨bodies, rest, splits, splits.unique, served shortChunks shortAnswers splits,
    answerWithin_of_splits splits, splits.length_le⟩

/-- Two queries are answered, and the third is refused for its two offsets.  What is behind it is
never looked at; it is cut short, and fails a connection without the third query. -/
theorem connection_served_with_refused_query :
    let query := Words.encode [1]
    let greeting := offline Small.server.params Small.server.chunks
    let refused := serve Small.server greeting
      (Frame.encode query ++ (Frame.encode query
        ++ (Frame.encode (Words.encode [0, 0]) ++ [9, 0, 0, 0, 1])))
    (∃ chunks answer, chunks.length = 2 ∧ (Small.server.respond query).result = .ok answer
        ∧ refused.sent = Handshake.encode Small.server.params
          ++ (chunks ++ [answer, answer]).flatMap Frame.encode)
      ∧ refused.result = .error (.refused (.offsetCount 1 2))
      ∧ (serve Small.server greeting (Frame.encode query ++ [9, 0, 0, 0, 1])).result
        = .error .endOfStream := by
  intro query greeting refused
  have accepts : Small.server.accepts query := by decide
  have kept : [query, query, Words.encode [0, 0]].takeWhile Small.server.accepts
      = [query, query] := by decide
  have connection := connection_served (s := Small.server) (by decide) (by decide)
  obtain ⟨bodies, rest, -, unique, served, -⟩ := connection (Frame.encode query
    ++ (Frame.encode query ++ (Frame.encode (Words.encode [0, 0]) ++ [9, 0, 0, 0, 1])))
  obtain ⟨rfl, rfl⟩ := unique (.frame (by decide) (.frame (by decide) (.frame (by decide)
    (.rest (.inr (by decide))))))
  refine ⟨?_, ?_, ?_⟩
  · obtain ⟨chunks, answers, streamed, told, sent, -⟩ := served.sent
    have length : chunks.length = Small.server.params.chunkCount := by
      simpa using congrArg List.length streamed
    obtain ⟨answer, responds⟩ : ∃ answer, (Small.server.respond query).result = .ok answer :=
      ⟨_, rfl⟩
    rw [kept, List.map_cons, List.map_cons, responds] at told
    obtain rfl : answers = [answer, answer] :=
      (List.map_inj_right fun _ _ => Except.ok.inj).mp told
    exact ⟨chunks, answer, length, responds, sent⟩
  · have split : [query, query, Words.encode [0, 0]]
        = [query, query] ++ Words.encode [0, 0] :: [] := rfl
    exact served.refused split (by simpa using accepts) rfl
  · obtain ⟨bodies, rest, -, unique, served, -⟩ :=
      connection (Frame.encode query ++ [9, 0, 0, 0, 1])
    obtain ⟨rfl, rfl⟩ := unique (.frame (by decide) (.rest (.inr (by decide))))
    exact served.cut (by simpa using accepts) (by decide)

end Host

end PrivateRetrieval
