/-
The offline phase of a reader.

The peer can send anything, in any length.  What the reader takes of it are a handshake
and as many frames as that announces; each of them is there and can be decoded, or the program
ends.  Nothing is written or printed before:

* **`Step.behind`** — a step behind earlier events, to follow a program through its binds
  (`Action.bind_of_step`, `Action.bind_of_failure`);
* **`Reader.Announces`** — the parameters at the front of a stream, if it announces any;
* **`Reader.readDatabase_of_announced`** — what comes of any stream behind these;
* **`Reader.readDatabase_offline`** — the stream of a host is read to its end, and no further;
* **`Reader.program_of_announced`** — so a reader fails in its offline phase, or goes on with a
  session over the chunks that it has read.
-/
import PrivateRetrieval.Program.Reader
import PrivateRetrieval.Proofs.Handshaking
import PrivateRetrieval.Proofs.Hosting
import PrivateRetrieval.Proofs.Readiness

namespace PrivateRetrieval

variable {ε ε' σ τ α β : Type}

/-! ### Steps one after the other -/

/-- A step behind events that came before it. -/
def Step.behind (events : List Event) (step : Step ε σ α) : Step ε σ α :=
  ⟨step.outcome, step.state, events ++ step.events⟩

namespace Step

@[simp] theorem outcome_behind (events : List Event) (step : Step ε σ α) :
    (step.behind events).outcome = step.outcome := rfl

@[simp] theorem state_behind (events : List Event) (step : Step ε σ α) :
    (step.behind events).state = step.state := rfl

@[simp] theorem events_behind (events : List Event) (step : Step ε σ α) :
    (step.behind events).events = events ++ step.events := rfl

@[simp] theorem behind_nil (step : Step ε σ α) : step.behind [] = step := rfl

end Step

namespace Action

variable {action : Action ε σ α} {next : α → Action ε σ β} {state state' : σ} {events : List Event}

theorem bind_of_step {value : α} (h : action state = ⟨.ok value, state', events⟩) :
    (action >>= next) state = (next value state').behind events := by
  rw [bind_of_ok (congrArg Step.outcome h), h]
  rfl

theorem bind_of_failure {cause : ε} (h : action state = ⟨.error cause, state', events⟩) :
    (action >>= next) state = ⟨.error cause, state', events⟩ := by
  rw [bind_of_error (congrArg Step.outcome h), h]

theorem attempt_of_step {value : α} (h : action state = ⟨.ok value, state', events⟩) :
    action.attempt state = ⟨.ok (.ok value), state', events⟩ := by
  rw [attempt_of_ok (congrArg Step.outcome h), h]

theorem attempt_of_failure {cause : ε} (h : action state = ⟨.error cause, state', events⟩) :
    action.attempt state = ⟨.ok (.error cause), state', events⟩ := by
  rw [attempt_of_error (congrArg Step.outcome h), h]

end Action

namespace Reader

variable {connection : Connection} {body rest : Bytes}

theorem check_of_ok {value : α} (state : σ) :
    check (.ok value) state = (⟨.ok value, state, []⟩ : Step Failure σ α) := rfl

theorem check_of_error (cause : Error) (state : σ) :
    check (.error cause) state = (⟨.error (.refused cause), state, []⟩ : Step Failure σ α) := rfl

theorem report_eq (event : Event) (state : σ) :
    Action.report event state = (⟨.ok (), state, [event]⟩ : Step ε σ Unit) := rfl

/-! ### Reading -/

theorem readMessage_of_frame (short : body.length < UInt32.size)
    (unread : connection.unread = Frame.encode body ++ rest) :
    readMessage connection = ⟨.ok body, { connection with unread := rest }, []⟩ := by
  rw [readMessage, unread, Frame.read_encode_append short]

/-- A message is there as a whole, or the stream has ended. -/
theorem readMessage_cases (connection : Connection) :
    (∃ body rest, body.length < UInt32.size ∧ connection.unread = Frame.encode body ++ rest
      ∧ readMessage connection = ⟨.ok body, { connection with unread := rest }, []⟩)
    ∨ readMessage connection = ⟨.error .endOfStream, connection, []⟩ := by
  cases front : Frame.read connection.unread with
  | message body rest =>
    obtain ⟨short, unread⟩ := Frame.encode_of_read front
    exact .inl ⟨body, rest, short, unread, readMessage_of_frame short unread⟩
  | noLength =>
    refine .inr ?_
    rw [readMessage, front]
  | cutBody =>
    refine .inr ?_
    rw [readMessage, front]

/-- The reasons for which chunks are not read to the last. -/
def Unreadable (cause : Failure) : Prop :=
  cause = .endOfStream ∨ ∃ why, cause = .refused (.undecodable why)

theorem readChunks_cases (count : Nat) (connection : Connection) : ∃ unread,
    (∃ chunks, chunks.length = count
      ∧ readChunks count connection = ⟨.ok chunks, { connection with unread }, []⟩)
    ∨ ∃ cause, Unreadable cause
      ∧ readChunks count connection = ⟨.error cause, { connection with unread }, []⟩ := by
  induction count generalizing connection with
  | zero => exact ⟨connection.unread, .inl ⟨[], rfl, rfl⟩⟩
  | succ count ih =>
    rcases readMessage_cases connection with ⟨body, rest, -, -, read⟩ | ended
    · cases decoded : Words.decode body with
      | error cause =>
        -- A message that is no chunk has been taken off the stream all the same.
        refine ⟨rest, .inr ⟨.refused cause, .inr ?_, ?_⟩⟩
        · obtain ⟨why, rfl⟩ := Words.undecodable_of_error decoded
          exact ⟨why, rfl⟩
        · rw [readChunks, Action.bind_of_step read, decoded,
            Action.bind_of_failure (check_of_error cause _), Step.behind_nil]
      | ok words =>
        have eq : readChunks (count + 1) connection = ((readChunks count >>= fun rest =>
            (pure (words :: rest) : Action Failure Connection (List Chunk)))
              { connection with unread := rest }) := by
          rw [readChunks, Action.bind_of_step read, decoded, Action.bind_of_step (check_of_ok _),
            Step.behind_nil, Step.behind_nil]
        obtain ⟨unread, ⟨chunks, length, all⟩ | ⟨cause, unreadable, failed⟩⟩ :=
          ih { connection with unread := rest }
        · refine ⟨unread, .inl ⟨words :: chunks, congrArg Nat.succ length, ?_⟩⟩
          rw [eq, Action.bind_of_step all]
          rfl
        · refine ⟨unread, .inr ⟨cause, unreadable, ?_⟩⟩
          rw [eq, Action.bind_of_failure failed]
    · refine ⟨connection.unread, .inr ⟨.endOfStream, .inl rfl, ?_⟩⟩
      rw [readChunks, Action.bind_of_failure ended]

/-- Chunks in frames are read as they were written. -/
theorem readChunks_of_frames {chunks : List Chunk} {more : Bytes}
    (short : ∀ words ∈ chunks, (Words.encode words).length < UInt32.size) :
    ∀ {connection : Connection},
      connection.unread = (chunks.flatMap fun words => Frame.encode (Words.encode words)) ++ more →
      readChunks chunks.length connection
        = ⟨.ok chunks, { connection with unread := more }, []⟩ := by
  induction chunks with
  | nil =>
    rintro connection rfl
    rfl
  | cons words chunks ih =>
    intro connection unread
    rw [List.flatMap_cons, List.append_assoc] at unread
    have fits := short words List.mem_cons_self
    have read := readMessage_of_frame fits unread
    -- The bytes are more than the words that they stand for.
    have few : words.length < UInt32.size := by
      rw [Words.length_encode, wordWidth] at fits
      omega
    generalize behind : (chunks.flatMap fun words => Frame.encode (Words.encode words)) ++ more
      = unread' at read
    have later : readChunks chunks.length { connection with unread := unread' }
        = ⟨.ok chunks, { connection with unread := more }, []⟩ :=
      ih (fun other member => short other (List.mem_cons_of_mem words member)) behind.symm
    rw [List.length_cons, readChunks, Action.bind_of_step read, Words.decode_encode few,
      Action.bind_of_step (check_of_ok _), Action.bind_of_step later]
    rfl

theorem readBytes_of_le {count : Nat} (enough : count ≤ connection.unread.length) :
    readBytes count connection = ⟨.ok (connection.unread.take count),
      { connection with unread := connection.unread.drop count }, []⟩ := by
  unfold readBytes
  dsimp only
  rw [if_neg (by rw [List.length_take_of_le enough]; omega)]

theorem readBytes_of_lt {count : Nat} (few : connection.unread.length < count) :
    readBytes count connection = ⟨.error .endOfStream, connection, []⟩ := by
  unfold readBytes
  dsimp only
  rw [if_pos (Nat.lt_of_le_of_lt (List.length_take_le' _ _) few)]

/-! ### The database -/

/-- The parameters that a stream announces at its front. -/
def Announces (stream : Bytes) (p : Params) : Prop :=
  Handshake.decode (stream.take wordWidth) = .ok p

variable {p : Params}

/-- The number of words that a stream announces. -/
def announcedSize (stream : Bytes) : Nat := LittleEndian.decode (stream.take wordWidth)

/-- A number of words that is not zero announces parameters. -/
theorem announces_of_pos {stream : Bytes} (enough : wordWidth ≤ stream.length)
    (pos : 0 < announcedSize stream) :
    ∃ p, Params.ofSize (announcedSize stream) = .ok p ∧ Announces stream p := by
  obtain ⟨p, own⟩ := Params.ofSize_ok pos
  exact ⟨p, own, (Handshake.decode_of_length (List.length_take_of_le enough)).trans own⟩

theorem readDatabase_of_short (few : connection.unread.length < wordWidth) :
    readDatabase connection = ⟨.error .endOfStream, connection, []⟩ := by
  rw [readDatabase, Action.bind_of_failure (readBytes_of_lt few)]

/-- A database without words is refused. -/
theorem readDatabase_of_empty (enough : wordWidth ≤ connection.unread.length)
    (empty : announcedSize connection.unread = 0) :
    readDatabase connection = ⟨.error (.refused .emptyDatabase),
      { connection with unread := connection.unread.drop wordWidth }, []⟩ := by
  have refused : Handshake.decode (connection.unread.take wordWidth) = .error .emptyDatabase := by
    rw [Handshake.decode_of_length (List.length_take_of_le enough)]
    show Params.ofSize (announcedSize connection.unread) = _
    rw [empty]
    rfl
  rw [readDatabase, Action.bind_of_step (readBytes_of_le enough), refused,
    Action.bind_of_failure (check_of_error _ _), Step.behind_nil]

/-- Behind a handshake as many chunks are read as it announces. -/
theorem readDatabase_eq (announced : Announces connection.unread p) :
    readDatabase connection = (readChunks p.chunkCount >>= fun chunks =>
      (pure (p, chunks) : Action Failure Connection (Params × List Chunk)))
        { connection with unread := connection.unread.drop wordWidth } := by
  have length := (Handshake.ofSize_of_decode announced).1
  have enough : wordWidth ≤ connection.unread.length := by
    rw [← length]
    exact List.length_take_le' _ _
  rw [readDatabase, Action.bind_of_step (readBytes_of_le enough), announced,
    Action.bind_of_step (check_of_ok _), Step.behind_nil, Step.behind_nil]

theorem readDatabase_of_announced (announced : Announces connection.unread p) : ∃ unread,
    (∃ chunks, chunks.length = p.chunkCount
      ∧ readDatabase connection = ⟨.ok (p, chunks), { connection with unread }, []⟩)
    ∨ ∃ cause, Unreadable cause
      ∧ readDatabase connection = ⟨.error cause, { connection with unread }, []⟩ := by
  rw [readDatabase_eq announced]
  obtain ⟨unread, ⟨chunks, length, all⟩ | ⟨cause, unreadable, failed⟩⟩ := readChunks_cases
    p.chunkCount { connection with unread := connection.unread.drop wordWidth }
  · refine ⟨unread, .inl ⟨chunks, length, ?_⟩⟩
    rw [Action.bind_of_step all]
    rfl
  · exact ⟨unread, .inr ⟨cause, unreadable, Action.bind_of_failure failed⟩⟩

/-- What has been read as a database was announced. -/
theorem announced_of_readDatabase {chunks : List Chunk}
    (read : (readDatabase connection).outcome = .ok (p, chunks)) :
    Announces connection.unread p := by
  rcases Nat.lt_or_ge connection.unread.length wordWidth with few | enough
  · exact absurd ((congrArg Step.outcome (readDatabase_of_short few)).symm.trans read) (by simp)
  rcases Nat.eq_zero_or_pos (announcedSize connection.unread) with empty | pos
  · have refused := congrArg Step.outcome (readDatabase_of_empty enough empty)
    exact absurd (refused.symm.trans read) (by simp)
  obtain ⟨found, -, announced⟩ := announces_of_pos enough pos
  obtain ⟨unread, ⟨_, -, eq⟩ | ⟨cause, -, eq⟩⟩ := readDatabase_of_announced announced
  · cases (congrArg Step.outcome eq).symm.trans read
    exact announced
  · exact absurd ((congrArg Step.outcome eq).symm.trans read) (by simp)

/-- What a host sends at first is read to its end, and what follows stays unread. -/
theorem readDatabase_offline {s : Server} (small : s.params.dbSize < UInt64.size)
    (short : 4 + 8 * s.params.chunkSize < UInt32.size) {more : Bytes}
    (unread : connection.unread = Host.offline s.params s.chunks ++ more) :
    readDatabase connection
      = ⟨.ok (s.params, s.chunks), { connection with unread := more }, []⟩ := by
  have width := Handshake.length_encode s.params
  rw [Host.offline, List.append_assoc] at unread
  have announced : Announces connection.unread s.params := by
    rw [Announces, unread, List.take_left' width]
    exact Handshake.decode_encode s.ofSize_dbSize small
  have frames (words : Chunk) (member : words ∈ s.chunks) :
      (Words.encode words).length < UInt32.size := by
    rw [Server.length_of_chunk member]
    exact short
  have read : readChunks s.chunks.length
      { connection with unread := connection.unread.drop wordWidth }
        = ⟨.ok s.chunks, { connection with unread := more }, []⟩ :=
    readChunks_of_frames frames (by rw [unread, List.drop_left' width])
  rw [s.length_chunks] at read
  rw [readDatabase_eq announced, Action.bind_of_step read]
  rfl

/-! ### The session -/

/-- The source of keys of the session that a reader opens. -/
def source (entropy : Bytes) : Keystream :=
  Keystream.ofSeed (Keystream.ofSeed entropy).drawSeed.1

/-- The first step of a reader's session. -/
def opening (entropy : Bytes) (p : Params) (chunks : List Chunk) : Step Error Session Unit :=
  Client.setup p (source entropy) chunks

theorem openSession_eq (entropy : Bytes) (p : Params) (chunks : List Chunk)
    (connection : Connection) :
    openSession (Keystream.ofSeed entropy).drawSeed.1 p chunks connection
      = ⟨((opening entropy p chunks).outcome.mapError .refused).bind fun () =>
          .ok (opening entropy p chunks).state,
        connection, (opening entropy p chunks).events⟩ := rfl

variable {entropy : Bytes} {peer : Peer} {chunks : List Chunk}

theorem opening_of_opened {session : Session}
    (opened : (openSession (Keystream.ofSeed entropy).drawSeed.1 p chunks connection).outcome
      = .ok session) :
    (opening entropy p chunks).outcome = .ok () ∧ session = (opening entropy p chunks).state := by
  rw [openSession_eq] at opened
  cases ended : (opening entropy p chunks).outcome with
  | ok =>
    rw [ended] at opened
    exact ⟨rfl, (Outcome.ok.inj opened).symm⟩
  | error cause =>
    rw [ended] at opened
    exact absurd opened (by rintro ⟨⟩)
  | fault cause =>
    rw [ended] at opened
    exact absurd opened (by rintro ⟨⟩)

/-- A session that has been opened is ready, and its chunks are as they should be. -/
theorem ready_opening (own : Params.ofSize p.dbSize = .ok p) (small : p.dbSize < UInt64.size)
    (ended : (opening entropy p chunks).outcome = .ok ()) :
    Client.Ready p [] (opening entropy p chunks).state ∧ p.Matches chunks := by
  have derived : p.Derived p.dbSize := .inl own
  exact Client.ready_setup derived.valid small (Params.backupCount_lt_of_ofSize own small) ended

/-- What is left of the program when hints have been built over the chunks that were read. -/
theorem program_of_ready {unread : Bytes}
    (read : readDatabase connection = ⟨.ok (p, chunks), { connection with unread }, []⟩)
    (ready : (opening entropy p chunks).outcome = .ok ()) :
    program entropy peer connection
      = (withSession (opening entropy p chunks).state
          (fetchAll peer chunks (wanted.filter (· < p.dbSize))) { connection with unread }).behind
        [.connected Host.address, .hintsBuilt p.primaryCount p.backupCount p.chunkCount,
          .readerReady p.dbSize p.primaryCount] := by
  have events : (opening entropy p chunks).events
      = [.hintsBuilt p.primaryCount p.backupCount p.chunkCount] := Client.rebuild_of_ok_events ready
  have opened := openSession_eq entropy p chunks { connection with unread }
  rw [ready, events] at opened
  rw [program, Action.bind_of_step (report_eq _ _), Action.bind_of_step read]
  dsimp only
  rw [Action.bind_of_step opened, Action.bind_of_step (report_eq _ _)]
  rfl

/-- What cannot be read as a database ends the program. -/
theorem program_of_failure {cause : Failure} {unread : Bytes}
    (failed : readDatabase connection = ⟨.error cause, { connection with unread }, []⟩) :
    program entropy peer connection
      = ⟨.error cause, { connection with unread }, [.connected Host.address]⟩ := by
  rw [program, Action.bind_of_step (report_eq _ _), Action.bind_of_failure failed]
  rfl

/-- The reasons for which a reader ends before its online phase, once a database is announced. -/
def Unopened (p : Params) (cause : Failure) : Prop :=
  Unreadable cause ∨ ∃ chunk found, cause = .refused (.chunkLength chunk p.chunkSize found)

/-- If a database is announced, a reader fails before it has written anything, or goes on with a
session over as many chunks of the right length. -/
theorem program_of_announced (entropy : Bytes) (peer : Peer)
    (announced : Announces connection.unread p) : ∃ unread,
    (∃ cause, Unopened p cause ∧ program entropy peer connection
      = ⟨.error cause, { connection with unread }, [.connected Host.address]⟩)
    ∨ ∃ chunks, (opening entropy p chunks).outcome = .ok ()
      ∧ program entropy peer connection
        = (withSession (opening entropy p chunks).state
            (fetchAll peer chunks (wanted.filter (· < p.dbSize))) { connection with unread }).behind
          [.connected Host.address, .hintsBuilt p.primaryCount p.backupCount p.chunkCount,
            .readerReady p.dbSize p.primaryCount] := by
  obtain ⟨unread, ⟨chunks, length, read⟩ | ⟨cause, unreadable, failed⟩⟩ :=
    readDatabase_of_announced announced
  · have derived : p.Derived p.dbSize := .inl (Handshake.ofSize_of_decode announced).2.1
    -- With the right number of chunks, only the length of one of them can be wrong.
    rcases Client.setup_cases (K := TurboShake.Key) (source entropy) derived.valid length
      with ready | ⟨chunk, found, refused, silent⟩
    · exact ⟨unread, .inr ⟨chunks, ready, program_of_ready read ready⟩⟩
    · have opened := openSession_eq entropy p chunks { connection with unread }
      rw [opening, refused, silent] at opened
      refine ⟨unread, .inl ⟨_, .inr ⟨chunk, found, rfl⟩, ?_⟩⟩
      rw [program, Action.bind_of_step (report_eq _ _), Action.bind_of_step read]
      dsimp only
      rw [Action.bind_of_failure opened]
      rfl
  · exact ⟨unread, .inl ⟨cause, .inl unreadable, program_of_failure failed⟩⟩

end Reader

end PrivateRetrieval
