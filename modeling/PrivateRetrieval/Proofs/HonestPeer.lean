/-
A reader in front of its server.

The host streams its database and answers every query that is written.  Nothing is then left
unread between two words, no answer is refused, and every word that is printed is the one of the
database.  What can still happen is that an index is missed, and missed again from fresh hints:

* **`Reader.Attends`** — what holds between two words (`Reader.attends_opening`);
* **`Reader.fetch_honest`** — one index: its word, or a second miss;
* **`Reader.Delivers`** — the words of a list of indices, up to the one that is missed; their
  number tells the words and how the run ends (`Reader.Delivers.words_eq`,
  `Reader.Delivers.outcome_eq`);
* **`Reader.fetchAll_honest`** — a whole list, by induction over the sessions in between;
* **`Reader.reads_from_its_server`** — the whole program.
-/
import PrivateRetrieval.Proofs.EndToEnd
import PrivateRetrieval.Proofs.Fetching

namespace PrivateRetrieval.Reader

variable {s : Server} {known : List Nat} {index : Nat} {visit : Visit} {session : Session}
  {words : List (Nat × UInt64)} {indices : List Nat} {outcome : Outcome Failure Unit}
  {events : List Event}

/-! ### Between two words -/

/-- Nothing is left to read, the session is ready for the next index, and whatever it knows is
true. -/
structure Attends (s : Server) (known : List Nat) (visit : Visit) : Prop where
  nothing : visit.connection.unread = []
  ready : Client.Ready s.params known visit.session
  truthful : visit.session.Truthful s

theorem truthful_of_renews (truthful : visit.session.Truthful s)
    (renews : Renews s.params s.chunks index visit.session session events) :
    session.Truthful s := by
  cases renews with
  | kept => exact truthful
  | rebuilt =>
    have honest : (Operation.rebuild s.chunks).Honest s visit.session := fun _ => rfl
    have built := truthful.act honest
    rwa [Operation.act, Action.map_apply] at built

/-- What an honest server streams matches its own parameters. -/
theorem matches_chunks (s : Server) : s.params.Matches s.chunks :=
  ⟨s.length_chunks, fun _ => s.length_of_mem_chunks⟩

/-! ### One index -/

/-- How the fetch of an index ends in front of a server. -/
inductive Honest (s : Server) (known : List Nat) (index : Nat) (visit : Visit) :
    Step Failure Visit Unit → Prop where
  | missed {session : Session} (twice : MissedTwice s.chunks index visit.session) :
    Honest s known index visit
      ⟨.error (.refused (.hintMiss index)), { visit with session }, missedTwice s.params index⟩
  | printed {connection : Connection} {session : Session} {word : UInt64} {events : List Event}
      (right : s.words[index]? = some word)
      (printed : connection.printed = visit.connection.printed ++ [(index, word)])
      (attends : Attends s (known ++ [index]) ⟨connection, session⟩) :
    Honest s known index visit ⟨.ok (), ⟨connection, session⟩, events⟩

/-- The words that are printed for `indices` before a run ends, and how it ends: with all of them,
or with the next index, which some session has missed twice. -/
inductive Delivers (s : Server) (indices : List Nat) :
    List (Nat × UInt64) → Outcome Failure Unit → List Event → Prop where
  | all {words : List (Nat × UInt64)} {events : List Event}
      (names : indices = words.map Prod.fst)
      (right : ∀ found ∈ words, s.words[found.1]? = some found.2) :
    Delivers s indices words (.ok ()) events
  | missed {words : List (Nat × UInt64)} {index : Nat} {later : List Nat} {events : List Event}
      {session : Session} (split : indices = words.map Prod.fst ++ index :: later)
      (right : ∀ found ∈ words, s.words[found.1]? = some found.2)
      (twice : MissedTwice s.chunks index session) :
    Delivers s indices words (.error (.refused (.hintMiss index)))
      (events ++ missedTwice s.params index)

namespace Delivers

theorem behind (delivers : Delivers s indices words outcome events) (before : List Event) :
    Delivers s indices words outcome (before ++ events) := by
  cases delivers with
  | all names right => exact .all names right
  | missed split right twice =>
    rw [← List.append_assoc]
    exact .missed split right twice

theorem cons (delivers : Delivers s indices words outcome events) {word : UInt64}
    (right : s.words[index]? = some word) :
    Delivers s (index :: indices) ((index, word) :: words) outcome events := by
  cases delivers with
  | all names others =>
    exact .all (congrArg (List.cons index) names) (List.forall_mem_cons.mpr ⟨right, others⟩)
  | missed split others twice =>
    exact .missed (congrArg (List.cons index) split) (List.forall_mem_cons.mpr ⟨right, others⟩)
      twice

/-- The words that are printed are those of the first indices. -/
theorem prints_prefix (delivers : Delivers s indices words outcome events) :
    words.map Prod.fst = indices.take words.length
      ∧ ∀ found ∈ words, s.words[found.1]? = some found.2 := by
  cases delivers with
  | all names right =>
    rw [names, List.take_of_length_le (Nat.le_of_eq (List.length_map _))]
    exact ⟨rfl, right⟩
  | missed split right twice =>
    rw [split, List.take_left' (List.length_map _)]
    exact ⟨rfl, right⟩

/-- How many words are printed tells which they are. -/
theorem words_eq (delivers : Delivers s indices words outcome events) {value : Nat → UInt64}
    (holds : ∀ index ∈ indices, s.words[index]? = some (value index)) :
    words = (indices.take words.length).map fun index => (index, value index) := by
  obtain ⟨names, right⟩ := delivers.prints_prefix
  rw [← names, List.map_map]
  refine (List.map_id words).symm.trans (List.map_congr_left fun found member => ?_)
  have listed : found.1 ∈ indices := List.mem_of_mem_take (names ▸ List.mem_map_of_mem member)
  have value_eq : found.2 = value found.1 :=
    Option.some.inj ((right found member).symm.trans (holds found.1 listed))
  exact Prod.ext rfl value_eq

/-- How a run ends that has printed this many words: well with the last one, or with a miss of the
next. -/
def ending (indices : List Nat) (printed : Nat) : Outcome Failure Unit :=
  match indices[printed]? with
  | none => .ok ()
  | some index => .error (.refused (.hintMiss index))

theorem outcome_eq (delivers : Delivers s indices words outcome events) :
    outcome = ending indices words.length := by
  cases delivers with
  | all names right =>
    have past : indices[words.length]? = none :=
      List.getElem?_eq_none (by rw [names, List.length_map])
    rw [ending, past]
  | @missed index later _ _ split right twice =>
    have next : indices[words.length]? = some index := by
      rw [split, List.getElem?_append_right (by rw [List.length_map]), List.length_map,
        Nat.sub_self, List.getElem?_cons_zero]
    rw [ending, next]

end Delivers

/-- What a visit to a server leaves on its connection. -/
structure Visited (s : Server) (indices : List Nat) (before : Connection)
    (step : Step Failure Visit Unit) : Prop where
  nothing : step.state.connection.unread = []
  exists_words : ∃ words, step.state.connection.printed = before.printed ++ words
    ∧ Delivers s indices words step.outcome step.events

section Answers

variable (shortAnswers : 4 + 8 * s.params.chunkCount < UInt32.size)

include shortAnswers

/-- The server's answer is read as a whole, and its word is taken. -/
theorem answer_honest {query : Query} {offsets : List Nat}
    (ready : Client.Ready s.params known session) (truthful : session.Truthful s)
    (selects : session.Selects query)
    (prepared : (session.awaiting query).prepare query = .ok offsets)
    (left : known.length < s.params.backupsPerChunk) :
    ∃ response word next, (s.respond (encodeOffsets offsets)).result = .ok response
      ∧ response.length < UInt32.size
      ∧ Client.processResponse response (session.awaiting query) = ⟨.ok word, next, []⟩
      ∧ s.words[query.index]? = some word ∧ next.Truthful s
      ∧ Client.Ready s.params (known ++ [query.index]) next := by
  have waiting : (session.awaiting query).Truthful s :=
    Client.Change.truthful (.select selects) truthful
  have pending := session.pending_awaiting query
  have facing : (session.awaiting query).Facing s := by
    refine ⟨waiting.consistent, waiting.same, ?_⟩
    show session.params.chunkCount < _
    rw [ready.params]
    omega
  obtain ⟨response, left', responds, answered⟩ := facing.answered pending prepared
  have after : (Client.processResponse response (session.awaiting query)).state.Truthful s := by
    have honest : (Operation.processResponse response).Honest s (session.awaiting query) := by
      intro found parities same _ _
      obtain rfl : query = found := Option.some.inj (pending.symm.trans same)
      exact ⟨offsets, prepared, responds⟩
    have acted := waiting.act honest
    rwa [Operation.act, Action.map_apply] at acted
  refine ⟨response, ?_⟩
  rcases ready.answered selects left response with
    ⟨cause, refuses, refused⟩ | ⟨word, next, taken, kept, onward⟩
  · -- The only error that the server's answer can leave is one that fresh hints cure.
    rw [refused] at answered
    obtain ⟨-, -, ⟨word, ended⟩ | ended⟩ := answered.settled
    · exact absurd ended (by simp)
    · cases ended
      exact absurd (fatal_of_refusesAnswer refuses) (by simp [Error.curedByRebuild])
  · rw [taken] at after
    refine ⟨word, next, responds, ?_, taken, after.faithful kept, after, onward⟩
    rw [Server.length_of_respond responds]
    exact shortAnswers

theorem fetch_honest (attends : Attends s known visit)
    (agenda : Agenda s.params known (index :: indices)) :
    Honest s known index visit (fetch (Peer.ofServer s) s.chunks index visit) := by
  obtain ⟨nothing, ready, truthful⟩ := attends
  rcases ask_cases ready (matches_chunks s) agenda with
    ⟨session, events, query, offsets, renews, again, selects, rfl, prepared, asked⟩
      | ⟨twice, missed⟩
  · obtain ⟨response, word, next, responds, short, taken, right, after, onward⟩ :=
      answer_honest shortAnswers again (truthful_of_renews truthful renews) selects prepared
        agenda.left
    have unread : (visit.connection.wrote (Peer.ofServer s) (encodeOffsets offsets)).unread
        = Frame.encode response ++ [] := by
      rw [Connection.wrote, nothing, Peer.ofServer, responds]
      simp
    rw [fetch_of_printed asked (readMessage_of_frame short unread) taken]
    exact .printed right rfl ⟨rfl, onward, after⟩
  · rw [fetch, Action.bind_of_failure missed]
    exact .missed twice

/-! ### All indices -/

/-- A list of indices in front of a server.  After each word the reader attends again. -/
theorem fetchAll_honest {indices : List Nat} :
    ∀ {known : List Nat} {visit : Visit}, Attends s known visit → Agenda s.params known indices →
      Visited s indices visit.connection (fetchAll (Peer.ofServer s) s.chunks indices visit) := by
  induction indices with
  | nil =>
    intro known visit attends _
    exact ⟨attends.nothing, [], (List.append_nil _).symm, .all rfl (by simp)⟩
  | cons index indices ih =>
    intro known visit attends agenda
    have fetched := fetch_honest shortAnswers attends agenda
    rw [fetchAll]
    generalize step : fetch (Peer.ofServer s) s.chunks index visit = first at fetched
    cases fetched with
    | missed twice =>
      have undelivered : Delivers s (index :: indices) [] (.error (.refused (.hintMiss index)))
          ([] ++ missedTwice s.params index) := .missed rfl (by simp) twice
      rw [Action.bind_of_failure step]
      exact ⟨attends.nothing, [], (List.append_nil _).symm, undelivered⟩
    | @printed connection session word events right printed onward =>
      rw [Action.bind_of_step step]
      obtain ⟨nothing, words, printed', delivers⟩ := ih onward agenda.later
      refine ⟨nothing, (index, word) :: words, ?_, (delivers.cons right).behind events⟩
      rw [Step.state_behind, printed', printed, List.append_assoc]
      rfl

end Answers

/-! ### The whole program -/

/-- If every chunk and every answer fits into a frame, the words can be counted in one word. -/
theorem dbSize_lt_of_short (shortChunks : 4 + 8 * s.params.chunkSize < UInt32.size)
    (shortAnswers : 4 + 8 * s.params.chunkCount < UInt32.size) :
    s.params.dbSize < UInt64.size := by
  simp only [UInt32.size] at shortChunks shortAnswers
  have size : s.params.chunkSize ≤ 2 ^ 29 := by omega
  have count : s.params.chunkCount ≤ 2 ^ 29 := by omega
  calc s.params.dbSize
    _ ≤ s.params.chunkSize * s.params.chunkCount := s.valid.dbSize_le
    _ ≤ 2 ^ 29 * 2 ^ 29 := Nat.mul_le_mul size count
    _ < UInt64.size := by decide

/-- The first session over the chunks of a server. -/
theorem attends_opening (small : s.params.dbSize < UInt64.size) (entropy : Bytes) :
    (opening entropy s.params s.chunks).outcome = .ok ()
      ∧ Attends s [] ⟨{ unread := [] }, (opening entropy s.params s.chunks).state⟩ := by
  obtain ⟨ended, truthful⟩ := Client.truthful_setup (K := TurboShake.Key) (.inl s.derived)
    (source entropy)
  exact ⟨ended, rfl, (ready_opening s.ofSize_dbSize small ended).1, truthful⟩

/-- **All words, or a second miss.**  A reader takes the stream of its host to the end and no
further, and its session is set up.  Then it prints the words of the database for the indices
in the list, and ends well with the last one, or with a miss of the next one by the query
after a rebuild. -/
theorem reads_from_its_server (shortChunks : 4 + 8 * s.params.chunkSize < UInt32.size)
    (shortAnswers : 4 + 8 * s.params.chunkCount < UInt32.size) (entropy : Bytes) :
    let step := run entropy (Host.offline s.params s.chunks) (Peer.ofServer s)
    (∀ (connection : Connection) (more : Bytes),
        connection.unread = Host.offline s.params s.chunks ++ more →
        readDatabase connection
          = ⟨.ok (s.params, s.chunks), { connection with unread := more }, []⟩)
      ∧ (opening entropy s.params s.chunks).outcome = .ok ()
      ∧ step.state.unread = []
      ∧ Delivers s (listed s.words.size) step.state.printed step.outcome step.events := by
  intro step
  have small := dbSize_lt_of_short shortChunks shortAnswers
  obtain ⟨ended, attends⟩ := attends_opening small entropy
  obtain ⟨nothing, words, printed, delivers⟩ :=
    fetchAll_honest shortAnswers attends (.listed s.ofSize_dbSize)
  have whole : ({ unread := Host.offline s.params s.chunks } : Connection).unread
      = Host.offline s.params s.chunks ++ [] := (List.append_nil _).symm
  -- The offline phase is the whole of what can be read before the first query.
  have eq : step = _ := program_of_ready (readDatabase_offline small shortChunks whole) ended
  rw [List.nil_append] at printed
  subst printed
  refine ⟨fun connection more => readDatabase_offline small shortChunks, ended, ?_, ?_⟩
  · rw [eq]
    exact nothing
  · rw [eq, ← s.dbSize_eq]
    exact delivers.behind _

/-- Of four words only the first is listed, and hints from the keystream of the zero seed cover
it. -/
example :
    let step := run (List.replicate 32 0) (Host.offline Small.server.params Small.server.chunks)
      (Peer.ofServer Small.server)
    step.outcome = .ok () ∧ step.state.printed = [(0, 10)] ∧ step.state.unread = [] := by
  decide +kernel

/-- A database of which every word is its own index. -/
def ownIndices (count : Nat) : Array UInt64 := (Array.range count).map UInt64.ofNat

theorem size_ownIndices (count : Nat) : (ownIndices count).size = count := by
  rw [ownIndices, Array.size_map, Array.size_range]

theorem ownIndices_getElem? {count index : Nat} (within : index < count) :
    (ownIndices count)[index]? = some (UInt64.ofNat index) := by
  rw [ownIndices, Array.getElem?_map, Array.getElem?_eq_getElem (by rwa [Array.size_range]),
    Array.getElem_range]
  rfl

theorem listed_ownIndices {count : Nat} (same : s.words = ownIndices count) :
    ∀ index ∈ listed s.words.size, s.words[index]? = some (UInt64.ofNat index) := by
  intro index member
  have within := of_decide_eq_true (List.mem_filter.mp member).2
  rw [same, size_ownIndices] at within
  rw [same, ownIndices_getElem? within]

/-- With as many words all four indices are listed, and the number of those that are printed tells
the rest. -/
theorem reads_from_its_server_of_four_indices :
    ∃ s, Server.ofWords (ownIndices 65536) = .ok s ∧
      let step := run (List.replicate 32 0) (Host.offline s.params s.chunks) (Peer.ofServer s)
      step.state.unread = []
        ∧ step.state.printed
          = ([0, 4242, 31337, 65535].take step.state.printed.length).map
              (fun index => (index, UInt64.ofNat index))
        ∧ step.outcome = Delivers.ending [0, 4242, 31337, 65535] step.state.printed.length := by
  have nonempty : 0 < (ownIndices 65536).size := by
    rw [size_ownIndices]
    decide
  obtain ⟨s, made, same⟩ := Server.ofWords_ok nonempty
  have holds := listed_ownIndices same
  have size : s.words.size = 65536 := by rw [same, size_ownIndices]
  have all : listed s.words.size = [0, 4242, 31337, 65535] := by
    rw [size]
    decide
  have chunkSize : s.params.chunkSize = 256 := by
    rw [s.valid.chunkSize_eq, s.dbSize_eq, size]
    decide
  have chunkCount : s.params.chunkCount = 256 := by
    rw [s.valid.chunkCount_eq, s.dbSize_eq, size, chunkSize]
  refine ⟨s, made, ?_⟩
  intro step
  have shortChunks : 4 + 8 * s.params.chunkSize < UInt32.size := by
    rw [chunkSize]
    decide
  have shortAnswers : 4 + 8 * s.params.chunkCount < UInt32.size := by
    rw [chunkCount]
    decide
  obtain ⟨-, -, nothing, delivers⟩ :=
    reads_from_its_server shortChunks shortAnswers (List.replicate 32 0)
  rw [all] at delivers holds
  exact ⟨nothing, delivers.words_eq holds, delivers.outcome_eq⟩

end PrivateRetrieval.Reader
