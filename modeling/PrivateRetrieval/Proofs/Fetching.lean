/-
A reader asks for its words.

For every index a reader makes a query, once more from fresh hints if none passes through the
index, writes it, and prints the word that the answer leaves.  A peer can hold back, cut
short or spoil any answer, and that ends the program.  It cannot do more: as long as fewer words
have been asked for than there are backup hints of a chunk, the session is ready for the next one:

* **`Reader.IsQuery`** — what every server of as many words answers
  (`Reader.IsQuery.accepted`);
* **`Reader.Agenda`** — what is left to be asked for, with hints for all of it;
* **`Reader.ask_cases`** — a query is made, or fresh hints miss the index as well
  (`Reader.MissedTwice`);
* **`Reader.fetch_cases`** — one index, against any peer;
* **`Reader.Ends`** — how far a list of indices is gone through, and why no further;
* **`Reader.fetchAll_ends`** — a whole list, by induction over the sessions in between.
-/
import PrivateRetrieval.Proofs.Conversation
import PrivateRetrieval.Proofs.Reading

namespace PrivateRetrieval.Reader

variable {p : Params} {known : List Nat} {chunks : List Chunk} {index : Nat} {visit : Visit}
  {session next : Session} {peer : Peer} {message response rest : Bytes} {events : List Event}
  {indices : List Nat}

/-! ### What is written -/

/-- An offset for every chunk but one, each within its chunk. -/
def IsQuery (p : Params) (message : Bytes) : Prop :=
  ∃ offsets : List Nat, message = encodeOffsets offsets ∧ offsets.length = p.puncturedLength
    ∧ ∀ offset ∈ offsets, offset < p.chunkSize

namespace IsQuery

theorem length (asks : IsQuery p message) : message.length = 4 + 8 * (p.chunkCount - 1) := by
  obtain ⟨offsets, rfl, length, -⟩ := asks
  rw [encodeOffsets, Words.length_encode, List.length_map, length, Nat.mul_comm]
  rfl

/-- It is answered by every server of as many words. -/
theorem accepted (asks : IsQuery p message) (valid : p.Valid) (few : p.chunkCount < UInt32.size)
    {s : Server} (same : s.words.size = p.dbSize) : s.accepts message = true := by
  obtain ⟨offsets, rfl, length, below⟩ := asks
  have size : s.params.dbSize = p.dbSize := s.dbSize_eq.trans same
  have fits : s.Fits offsets := by
    refine ⟨?_, fun offset member => ?_⟩
    · rw [s.valid.chunkCount_eq_of valid size]
      exact length
    · rw [s.valid.chunkSize_eq_of valid size]
      exact below offset member
  have counted : offsets.length < UInt32.size := by
    rw [length, Params.puncturedLength]
    omega
  -- An offset is below the size of a chunk, and so it fits into a word.
  obtain ⟨decoded, kept⟩ := Client.decode_encodeOffsets counted fun offset member => by
    have long := valid.chunkSize_le_chunkCount
    have inChunk := below offset member
    simp only [UInt32.size, UInt64.size] at few ⊢
    omega
  obtain ⟨parities, told, -⟩ := Server.process_of_fits fits
  rw [Server.accepts, s.respond_of_decoded decoded, kept]
  show (Reply.bind (s.process offsets) _).result.isOk = true
  rw [Reply.bind, told]
  rfl

end IsQuery

/-- The offsets that a session prepares make a query. -/
theorem isQuery_of_prepare {query : Query} {offsets : List Nat} (consistent : session.Consistent)
    (pending : session.pending = some query) (prepared : session.prepare query = .ok offsets) :
    IsQuery session.params (encodeOffsets offsets) := by
  obtain ⟨length, below⟩ := consistent.prepared_fits pending prepared
  exact ⟨offsets, rfl, length, below⟩

/-! ### What is asked for -/

/-- The indices that are asked for in a database of `size` words. -/
def listed (size : Nat) : List Nat := wanted.filter (· < size)

theorem nodup_listed (size : Nat) : (listed size).Nodup :=
  List.Nodup.filter _ (by decide)

theorem length_listed_le (size : Nat) : (listed size).length ≤ 4 :=
  List.length_filter_le _ wanted

/-- What is left to be asked for when `known` has been: new indices of the database, and in all no
more than there are backup hints for a chunk. -/
structure Agenda (p : Params) (known indices : List Nat) : Prop where
  inDb : ∀ index ∈ indices, index < p.dbSize
  distinct : (known ++ indices).Nodup
  few : known.length + indices.length ≤ p.backupsPerChunk

namespace Agenda

/-- Every chunk has at least as many backup hints as there are indices in the list. -/
theorem listed {size : Nat} (own : Params.ofSize size = .ok p) : Agenda p [] (listed size) := by
  have derived : p.Derived size := .inl own
  refine ⟨fun index member => ?_, nodup_listed size, ?_⟩
  · rw [derived.dbSize_eq]
    exact of_decide_eq_true (List.mem_filter.mp member).2
  · have four := length_listed_le size
    rw [Params.backupsPerChunk_of_ofSize own, Params.oversampling, List.length_nil]
    omega

theorem fresh (agenda : Agenda p known (index :: indices)) : index ∉ known := fun old =>
  (List.nodup_append.mp agenda.distinct).2.2 index old index List.mem_cons_self rfl

theorem left (agenda : Agenda p known (index :: indices)) : known.length < p.backupsPerChunk := by
  have few := agenda.few
  rw [List.length_cons] at few
  omega

theorem later (agenda : Agenda p known (index :: indices)) :
    Agenda p (known ++ [index]) indices := by
  obtain ⟨inDb, distinct, few⟩ := agenda
  refine ⟨fun later member => inDb later (List.mem_cons_of_mem index member), ?_, ?_⟩
  · rwa [List.append_assoc]
  · rw [List.length_append, List.length_singleton]
    rw [List.length_cons] at few
    omega

end Agenda

/-! ### Asking -/

/-- What is reported when an index is missed and the hints are built again for it. -/
def retrying (p : Params) (index : Nat) : List Event :=
  [.uncovered index (p.chunkOf index), .rebuilding index (.hintMiss index),
    .hintsBuilt p.primaryCount p.backupCount p.chunkCount]

/-- What is reported when fresh hints miss the index as well. -/
def missedTwice (p : Params) (index : Nat) : List Event :=
  retrying p index ++ [.uncovered index (p.chunkOf index)]

/-- The session that makes a query for an index, and what is reported before: the session at hand,
or the one with fresh hints after a miss. -/
inductive Renews (p : Params) (chunks : List Chunk) (index : Nat) (session : Session) :
    Session → List Event → Prop where
  | kept : Renews p chunks index session session []
  | rebuilt : Renews p chunks index session (Client.rebuild chunks session).state (retrying p index)

theorem onSession_eq {α : Type} {action : Action Error Session α} {outcome : Outcome Error α}
    (h : action visit.session = ⟨outcome, next, events⟩) :
    onSession action visit
      = ⟨outcome.mapError .refused, { visit with session := next }, events⟩ := by
  rw [onSession, Action.onPart, h]

theorem onConnection_eq {α : Type} {action : Action Failure Connection α}
    {outcome : Outcome Failure α} {connection : Connection}
    (h : action visit.connection = ⟨outcome, connection, events⟩) :
    onConnection action visit = ⟨outcome, { visit with connection }, events⟩ := by
  rw [onConnection, Action.onPart, h]
  cases outcome <;> rfl

/-- A query for the index is missed, and missed again after fresh hints have been built. -/
structure MissedTwice (chunks : List Chunk) (index : Nat) (session : Session) : Prop where
  first : (Client.query index session).outcome = .error (.hintMiss index)
  again : (Client.query index (Client.rebuild chunks session).state).outcome
    = .error (.hintMiss index)

/-- An index is asked for from the session at hand or, if no hint passes through it, from fresh
hints; and these can miss it as well. -/
theorem ask_cases (ready : Client.Ready p known visit.session) (whole : p.Matches chunks)
    (agenda : Agenda p known (index :: indices)) :
    (∃ session events query offsets, Renews p chunks index visit.session session events
      ∧ Client.Ready p known session ∧ session.Selects query ∧ query.index = index
      ∧ (session.awaiting query).prepare query = .ok offsets
      ∧ ask chunks index visit = ⟨.ok (encodeOffsets offsets),
        { visit with session := session.awaiting query }, events⟩)
    ∨ MissedTwice chunks index visit.session
      ∧ ask chunks index visit = ⟨.error (.refused (.hintMiss index)),
        { visit with session := (Client.rebuild chunks visit.session).state },
        missedTwice p index⟩ := by
  have inDb := agenda.inDb index List.mem_cons_self
  have fresh := agenda.fresh
  rcases ready.query_cases inDb fresh with ⟨query, offsets, selects, own, prepared, asked⟩ | missed
  · refine .inl ⟨visit.session, [], query, offsets, .kept, ready, selects, own, prepared, ?_⟩
    rw [ask, Action.bind_of_step (onSession_eq (Action.attempt_of_step asked))]
    rfl
  -- After a miss all that counts is what the fresh hints do.
  obtain ⟨next, built, again⟩ := ready.rebuild_eq whole
  obtain rfl : (Client.rebuild chunks visit.session).state = next := congrArg Step.state built
  have eq : ask chunks index visit = (onSession (Client.query index)
      { visit with session := (Client.rebuild chunks visit.session).state }).behind
        (retrying p index) := by
    rw [ask, Action.bind_of_step (onSession_eq (Action.attempt_of_failure missed))]
    show ((Action.report (.rebuilding index (.hintMiss index)) >>= fun _ =>
      onSession (Client.rebuild chunks) >>= fun _ => onSession (Client.query index))
        { visit with session := visit.session }).behind [.uncovered index (p.chunkOf index)] = _
    rw [Action.bind_of_step (report_eq _ _), Action.bind_of_step (onSession_eq built)]
    rfl
  rcases again.query_cases inDb fresh with
    ⟨query, offsets, selects, own, prepared, asked⟩ | missed'
  · refine .inl ⟨_, _, query, offsets, .rebuilt, again, selects, own, prepared, ?_⟩
    rw [eq, onSession_eq asked]
    rfl
  · refine .inr ⟨⟨congrArg Step.outcome missed, congrArg Step.outcome missed'⟩, ?_⟩
    rw [eq, onSession_eq missed']
    rfl

/-! ### One index -/

/-- A connection on which a message has been written, and the peer has answered or not. -/
def Connection.wrote (connection : Connection) (peer : Peer) (message : Bytes) : Connection :=
  { connection with
    unread := connection.unread ++ (peer connection.written.length message).1
    written := connection.written ++ [message] }

/-- What the peer reports of the next message. -/
def Connection.heard (connection : Connection) (peer : Peer) (message : Bytes) : List Event :=
  (peer connection.written.length message).2

section Asked

variable {connection : Connection}
  (asked : ask chunks index visit = ⟨.ok message, { visit with session }, events⟩)

include asked

/-- What is left to do once a query is made. -/
theorem fetch_of_asked : fetch peer chunks index visit
    = ((do
        let response ← onConnection readMessage
        match ← onSession (Client.processResponse response).attempt with
        | .ok word => onConnection (print index word)
        | .error cause =>
          if cause.curedByRebuild then
            let word ← Action.read fun visit => .ok ((visit.session.cached index).getD 0)
            onConnection (print index word)
            onSession (Client.rebuild chunks)
          else refuse cause : Action Failure Visit Unit)
        ⟨visit.connection.wrote peer message, session⟩).behind
          (events ++ visit.connection.heard peer message) := by
  have written : onConnection (writeMessage peer message) ⟨visit.connection, session⟩
      = ⟨.ok (), ⟨visit.connection.wrote peer message, session⟩,
        visit.connection.heard peer message⟩ := rfl
  rw [fetch, Action.bind_of_step asked, Action.bind_of_step written]
  exact congrArg (Step.mk _ _) (List.append_assoc ..).symm

/-- The answer does not come, or not as a whole. -/
theorem fetch_of_cut
    (ended : readMessage (visit.connection.wrote peer message)
      = ⟨.error .endOfStream, visit.connection.wrote peer message, []⟩) :
    fetch peer chunks index visit = ⟨.error .endOfStream,
      ⟨visit.connection.wrote peer message, session⟩,
      events ++ visit.connection.heard peer message⟩ := by
  rw [fetch_of_asked asked, Action.bind_of_failure (onConnection_eq ended)]
  exact congrArg (Step.mk _ _) (List.append_nil _)

theorem fetch_of_refused
    (read : readMessage (visit.connection.wrote peer message) = ⟨.ok response, connection, []⟩)
    {cause : Error} (refused : Client.processResponse response session = ⟨.error cause, next, []⟩)
    (fatal : cause.curedByRebuild = false) :
    fetch peer chunks index visit = ⟨.error (.refused cause), ⟨connection, next⟩,
      events ++ visit.connection.heard peer message⟩ := by
  rw [fetch_of_asked asked, Action.bind_of_step (onConnection_eq read),
    Action.bind_of_step (onSession_eq (Action.attempt_of_failure refused))]
  dsimp only
  rw [if_neg (by simp [fatal])]
  exact congrArg (Step.mk _ _) (List.append_nil _)

theorem fetch_of_printed
    (read : readMessage (visit.connection.wrote peer message) = ⟨.ok response, connection, []⟩)
    {word : UInt64} (taken : Client.processResponse response session = ⟨.ok word, next, []⟩) :
    fetch peer chunks index visit = ⟨.ok (),
      ⟨{ connection with printed := connection.printed ++ [(index, word)] }, next⟩,
      events ++ visit.connection.heard peer message⟩ := by
  rw [fetch_of_asked asked, Action.bind_of_step (onConnection_eq read),
    Action.bind_of_step (onSession_eq (Action.attempt_of_step taken))]
  exact congrArg (Step.mk _ _) (List.append_nil _)

end Asked

/-- The reasons for which a query gets no word: the answer is cut short, or it is refused. -/
def Spoilt (p : Params) (cause : Failure) : Prop :=
  cause = .endOfStream ∨ ∃ refused, Client.RefusesAnswer p refused ∧ cause = .refused refused

/-- How the fetch of an index ends. -/
inductive Fetched (p : Params) (chunks : List Chunk) (known : List Nat) (index : Nat)
    (visit : Visit) : Step Failure Visit Unit → Prop where
  /-- Not even a fresh hint passes through the index. -/
  | missed {session : Session} (twice : MissedTwice chunks index visit.session) :
    Fetched p chunks known index visit
      ⟨.error (.refused (.hintMiss index)), { visit with session }, missedTwice p index⟩
  | failed {connection : Connection} {session : Session} {message : Bytes} {cause : Failure}
      {events : List Event} (asks : IsQuery p message) (spoilt : Spoilt p cause)
      (written : connection.written = visit.connection.written ++ [message])
      (printed : connection.printed = visit.connection.printed) :
    Fetched p chunks known index visit ⟨.error cause, ⟨connection, session⟩, events⟩
  | printed {connection : Connection} {session : Session} {message : Bytes} {word : UInt64}
      {events : List Event} (asks : IsQuery p message)
      (written : connection.written = visit.connection.written ++ [message])
      (printed : connection.printed = visit.connection.printed ++ [(index, word)])
      (ready : Client.Ready p (known ++ [index]) session) :
    Fetched p chunks known index visit ⟨.ok (), ⟨connection, session⟩, events⟩

theorem fatal_of_refusesAnswer {cause : Error} (refuses : Client.RefusesAnswer p cause) :
    cause.curedByRebuild = false := by
  obtain ⟨why, rfl⟩ | ⟨found, rfl⟩ := refuses
  · rfl
  · rfl

/-- One index, against any peer. -/
theorem fetch_cases (ready : Client.Ready p known visit.session) (whole : p.Matches chunks)
    (agenda : Agenda p known (index :: indices)) (peer : Peer) :
    Fetched p chunks known index visit (fetch peer chunks index visit) := by
  rcases ask_cases ready whole agenda with
    ⟨session, events, query, offsets, -, again, selects, own, prepared, asked⟩ | ⟨twice, missed⟩
  · have asks := isQuery_of_prepare (again.waiting selects).consistent
      (session.pending_awaiting query) prepared
    rw [show (session.awaiting query).params = p from again.params] at asks
    -- Either no whole message comes, or it is refused, or its word is taken.
    rcases readMessage_cases (visit.connection.wrote peer (encodeOffsets offsets)) with
      ⟨response, rest, -, -, read⟩ | ended
    · rcases again.answered selects agenda.left response with
        ⟨cause, refuses, refused⟩ | ⟨word, next, taken, -, onward⟩
      · rw [fetch_of_refused asked read refused (fatal_of_refusesAnswer refuses)]
        exact .failed asks (.inr ⟨cause, refuses, rfl⟩) rfl rfl
      · rw [fetch_of_printed asked read taken]
        exact .printed asks rfl rfl (own ▸ onward)
    · rw [fetch_of_cut asked ended]
      exact .failed asks (.inl rfl) rfl rfl
  · rw [fetch, Action.bind_of_failure missed]
    exact .missed twice

/-! ### All indices -/

/-- How a reader ends that is to ask for `indices`: it has printed the words of `done` and has
written `asked` queries. -/
inductive Ends (p : Params) (indices : List Nat) :
    (done : List Nat) → (asked : Nat) → Outcome Failure Unit → Prop where
  | all : Ends p indices indices indices.length (.ok ())
  | missed {done later : List Nat} {index : Nat} (split : indices = done ++ index :: later) :
    Ends p indices done done.length (.error (.refused (.hintMiss index)))
  | failed {done later : List Nat} {index : Nat} {cause : Failure}
      (split : indices = done ++ index :: later) (spoilt : Spoilt p cause) :
    Ends p indices done (done.length + 1) (.error cause)

theorem Ends.cons {indices done : List Nat} {asked : Nat} {outcome : Outcome Failure Unit}
    (ends : Ends p indices done asked outcome) (index : Nat) :
    Ends p (index :: indices) (index :: done) (asked + 1) outcome := by
  cases ends with
  | all => exact .all
  | missed split => exact .missed (congrArg (List.cons index) split)
  | failed split spoilt => exact .failed (congrArg (List.cons index) split) spoilt

/-- What a reader has done on a connection, besides reading from it. -/
structure Continues (p : Params) (indices : List Nat) (before after : Connection)
    (outcome : Outcome Failure Unit) : Prop where
  exists_ends : ∃ (words : List (Nat × UInt64)) (messages : List Bytes),
    after.printed = before.printed ++ words ∧ after.written = before.written ++ messages
      ∧ Ends p indices (words.map Prod.fst) messages.length outcome
      ∧ ∀ message ∈ messages, IsQuery p message

/-- A list of indices, against any peer.  Between two of them the session is ready, and the words
that are known are those that have been asked for. -/
theorem fetchAll_ends (whole : p.Matches chunks) (peer : Peer) {indices : List Nat} :
    ∀ {known : List Nat} {visit : Visit}, Client.Ready p known visit.session →
      Agenda p known indices →
      Continues p indices visit.connection (fetchAll peer chunks indices visit).state.connection
        (fetchAll peer chunks indices visit).outcome := by
  -- Each index that is printed makes the session ready for the rest, with one more that is known.
  induction indices with
  | nil =>
    intro known visit _ _
    exact ⟨[], [], (List.append_nil _).symm, (List.append_nil _).symm, .all, by simp⟩
  | cons index indices ih =>
    intro known visit ready agenda
    have fetched := fetch_cases ready whole agenda peer
    rw [fetchAll]
    generalize step : fetch peer chunks index visit = first at fetched
    cases fetched with
    | missed =>
      rw [Action.bind_of_failure step]
      exact ⟨[], [], (List.append_nil _).symm, (List.append_nil _).symm, .missed rfl, by simp⟩
    | @failed connection session message cause events asks spoilt written printed =>
      rw [Action.bind_of_failure step]
      refine ⟨[], [message], ?_, written, .failed rfl spoilt, by simpa using asks⟩
      rw [List.append_nil]
      exact printed
    | @printed connection session message word events asks written printed onward =>
      rw [Action.bind_of_step step]
      obtain ⟨words, messages, printed', written', ends, all⟩ :=
        @ih (known ++ [index]) ⟨connection, session⟩ onward agenda.later
      refine ⟨(index, word) :: words, message :: messages, ?_, ?_, ends.cons index, ?_⟩
      · rw [Step.state_behind, printed', printed, List.append_assoc]
        rfl
      · rw [Step.state_behind, written', written, List.append_assoc]
        rfl
      · simpa using ⟨asks, all⟩

end PrivateRetrieval.Reader
