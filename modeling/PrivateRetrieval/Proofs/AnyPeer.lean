/-
A reader against any peer.

The bytes that a reader takes in, before and after each of its queries, can be anything, and
can end anywhere.  A peer may as well remember all that it was sent, since a reader writes what
follows from what it has read.  All of this decides how far a reader gets, and nothing else:

* **`Reader.Concludes`** — the ways in which a reader can end, with the few errors of the library
  that are among them;
* **`Reader.Guarded`** — what holds of a run once a database is announced: words are printed in
  order, every query is one that a server of that size answers, and success means that
  everything has been printed;
* **`Reader.safe_against_any_peer`** — so it is for every peer, and no step is undefined.
-/
import PrivateRetrieval.Proofs.CheckedReader

namespace PrivateRetrieval.Reader

/-! ### How a reader ends -/

/-- The errors of the library that can end a reader. -/
def Met : Error → Prop
  | .emptyDatabase | .undecodable _ | .chunkLength .. | .hintMiss _ | .parityCount .. => True
  | .noHints | .chunkCount .. | .indexOutOfRange .. | .alreadyCached _ | .allCached
  | .queryPending | .noPendingQuery | .backupsExhausted .. | .offsetCount ..
  | .offsetOutOfRange .. => False

/-- A reader ends well, at the end of its stream, or with one of these errors. -/
inductive Concludes : Outcome Failure Unit → Prop where
  | ok : Concludes (.ok ())
  | endOfStream : Concludes (.error .endOfStream)
  | refused {cause : Error} (met : Met cause) : Concludes (.error (.refused cause))

variable {p : Params} {cause : Failure} {outcome : Outcome Failure Unit}

theorem concludes_of_spoilt (spoilt : Spoilt p cause) : Concludes (.error cause) := by
  obtain rfl | ⟨refused, ⟨why, rfl⟩ | ⟨found, rfl⟩, rfl⟩ := spoilt
  · exact .endOfStream
  · exact .refused trivial
  · exact .refused trivial

theorem concludes_of_unopened (unopened : Unopened p cause) : Concludes (.error cause) := by
  obtain (rfl | ⟨why, rfl⟩) | ⟨chunk, found, rfl⟩ := unopened
  · exact .endOfStream
  · exact .refused trivial
  · exact .refused trivial

namespace Ends

variable {indices done : List Nat} {asked : Nat}

theorem concludes (ends : Ends p indices done asked outcome) : Concludes outcome := by
  cases ends with
  | all => exact .ok
  | missed split => exact .refused trivial
  | failed split spoilt => exact concludes_of_spoilt spoilt

theorem isPrefix (ends : Ends p indices done asked outcome) : done <+: indices := by
  cases ends with
  | all => exact List.prefix_rfl
  | missed split => exact ⟨_, split.symm⟩
  | failed split spoilt => exact ⟨_, split.symm⟩

theorem ok_iff (ends : Ends p indices done asked outcome) :
    outcome = .ok () ↔ done = indices := by
  have later {index : Nat} {rest : List Nat} (split : indices = done ++ index :: rest) :
      done ≠ indices := fun all => by simp [all] at split
  cases ends with
  | all => exact iff_of_true rfl rfl
  | missed split => exact iff_of_false (by simp) (later split)
  | failed split spoilt => exact iff_of_false (by simp) (later split)

theorem asked_eq (ends : Ends p indices done asked outcome) :
    asked = done.length ∨ asked = done.length + 1 := by
  cases ends with
  | all => exact .inl rfl
  | missed split => exact .inl rfl
  | failed split spoilt => exact .inr rfl

end Ends

/-! ### Runs against any peer -/

/-- What a peer that has announced `p` cannot keep a reader from. -/
structure Guarded (p : Params) (step : Step Failure Connection Unit) : Prop where
  inOrder : step.state.printed.map Prod.fst <+: listed p.dbSize
  once : (step.state.printed.map Prod.fst).Nodup
  ok_iff : step.outcome = .ok () ↔ step.state.printed.map Prod.fst = listed p.dbSize
  asked : step.state.written.length = step.state.printed.length
    ∨ step.state.written.length = step.state.printed.length + 1
  /-- If a query can be framed, what has been sent is just one frame for each. -/
  framed : 4 + 8 * p.chunkCount < UInt32.size →
    Frame.Splits step.state.sent step.state.written []
  accepted : 4 + 8 * p.chunkCount < UInt32.size → ∀ s : Server, s.words.size = p.dbSize →
    ∀ message ∈ step.state.written, s.accepts message = true
  /-- Every chunk has at least as many backup hints as words are asked for. -/
  hinted : ∃ count, 0 < count ∧ p.backupsPerChunk = 4 * count
  few : step.state.printed.length ≤ 4

/-- Nothing has been written or printed. -/
def Silent (connection : Connection) : Prop :=
  connection.written = [] ∧ connection.printed = []

/-- Whatever a reader has done from the start on a connection is guarded. -/
theorem guarded_of_continues (own : Params.ofSize p.dbSize = .ok p) {before : Connection}
    (silent : Silent before) {step : Step Failure Connection Unit}
    (continues : Continues p (listed p.dbSize) before step.state step.outcome) :
    Guarded p step ∧ Concludes step.outcome := by
  obtain ⟨words, messages, printed, written, ends, queries⟩ := continues.exists_ends
  rw [silent.2, List.nil_append] at printed
  rw [silent.1, List.nil_append] at written
  have derived : p.Derived p.dbSize := .inl own
  have pos := derived.valid.chunkCount_pos
  subst printed written
  refine ⟨⟨ends.isPrefix, ends.isPrefix.sublist.nodup (nodup_listed _), ends.ok_iff, ?_,
    fun fits => ?_, fun fits s same message member => ?_, ?_, ?_⟩, ends.concludes⟩
  · have asked := ends.asked_eq
    rwa [List.length_map] at asked
  · have short (message : Bytes) (member : message ∈ step.state.written) :
        message.length < UInt32.size := by
      rw [(queries message member).length]
      omega
    have splits := Frame.splits_of_short short Frame.unfinished_nil
    rwa [List.append_nil] at splits
  · exact (queries message member).accepted derived.valid (by omega) same
  · exact ⟨_, Nat.le_max_left 1 _, Params.backupsPerChunk_of_ofSize own⟩
  · have most := ends.isPrefix.length_le.trans (length_listed_le p.dbSize)
    rwa [List.length_map] at most

/-- The first word is always asked for, so that a reader that has printed none has failed. -/
theorem guarded_of_silent (own : Params.ofSize p.dbSize = .ok p)
    {step : Step Failure Connection Unit} (silent : Silent step.state)
    (failed : step.outcome = .error cause) : Guarded p step := by
  obtain ⟨written, printed⟩ := silent
  have derived : p.Derived p.dbSize := .inl own
  have first : 0 ∈ listed p.dbSize :=
    List.mem_filter.mpr ⟨by decide, decide_eq_true derived.valid.dbSize_pos⟩
  have sent : step.state.sent = [] := by rw [Connection.sent, written, List.flatMap_nil]
  refine ⟨?_, ?_, ?_, ?_, fun _ => ?_, fun _ s same message member => ?_, ?_, ?_⟩
  · rw [printed]
    exact List.nil_prefix
  · rw [printed]
    exact List.nodup_nil
  · rw [failed, printed]
    refine iff_of_false (by simp) fun unlisted => ?_
    rw [← unlisted] at first
    exact absurd first List.not_mem_nil
  · rw [written, printed]
    exact .inl rfl
  · rw [sent, written]
    exact .rest Frame.unfinished_nil
  · rw [written] at member
    exact absurd member List.not_mem_nil
  · exact ⟨_, Nat.le_max_left 1 _, Params.backupsPerChunk_of_ofSize own⟩
  · rw [printed]
    exact Nat.zero_le 4

theorem run_of_announced (entropy : Bytes) {incoming : Bytes} (peer : Peer)
    (announced : Announces incoming p) :
    Guarded p (run entropy incoming peer) ∧ Concludes (run entropy incoming peer).outcome := by
  obtain ⟨-, own, small⟩ := Handshake.ofSize_of_decode announced
  rw [run, Action.run]
  obtain ⟨unread, ⟨cause, unopened, eq⟩ | ⟨chunks, ended, eq⟩⟩ := program_of_announced entropy peer
    (show Announces (Connection.mk incoming [] []).unread p from announced)
  · rw [eq]
    exact ⟨guarded_of_silent own ⟨rfl, rfl⟩ rfl, concludes_of_unopened unopened⟩
  · obtain ⟨ready, whole⟩ := ready_opening own small ended
    have start : Silent { unread } := ⟨rfl, rfl⟩
    rw [eq]
    exact guarded_of_continues own start
      (@fetchAll_ends _ _ whole peer _ [] ⟨{ unread }, _⟩ ready (.listed own))

/-- **Safe against any peer.**  Whatever a peer sends, and whenever its stream ends, a reader
comes to no fault and not to the branch for a word without a backup hint: anything can stand in
place of it.  If words are announced, the run is guarded; otherwise nothing is written or printed,
and the reader has met the end of the stream or refuses the empty database. -/
theorem safe_against_any_peer (entropy incoming : Bytes) (peer : Peer) :
    let step := run entropy incoming peer
    (∀ fallback, (Checked.program fallback entropy peer).run { unread := incoming } = step)
      ∧ Concludes step.outcome
      ∧ (wordWidth ≤ incoming.length → 0 < announcedSize incoming →
        ∃ p, Params.ofSize (announcedSize incoming) = .ok p ∧ Guarded p step)
      ∧ (wordWidth ≤ incoming.length → announcedSize incoming = 0 →
        Silent step.state ∧ step.outcome = .error (.refused .emptyDatabase))
      ∧ (incoming.length < wordWidth →
        Silent step.state ∧ step.outcome = .error .endOfStream) := by
  intro step
  -- The stream is too short for an announcement, or announces no words, or some.
  have whole (enough : wordWidth ≤ incoming.length) (pos : 0 < announcedSize incoming) :
      ∃ p, Params.ofSize (announcedSize incoming) = .ok p ∧ Guarded p step
        ∧ Concludes step.outcome := by
    obtain ⟨p, own, announced⟩ := announces_of_pos enough pos
    exact ⟨p, own, run_of_announced entropy peer announced⟩
  have empty (enough : wordWidth ≤ incoming.length) (wordless : announcedSize incoming = 0) :
      Silent step.state ∧ step.outcome = .error (.refused .emptyDatabase) := by
    have eq : step = _ := program_of_failure (readDatabase_of_empty enough wordless)
    rw [eq]
    exact ⟨⟨rfl, rfl⟩, rfl⟩
  have cut (few : incoming.length < wordWidth) :
      Silent step.state ∧ step.outcome = .error .endOfStream := by
    have eq : step = _ := program_of_failure (readDatabase_of_short few)
    rw [eq]
    exact ⟨⟨rfl, rfl⟩, rfl⟩
  refine ⟨fun fallback => ?_, ?_, fun enough pos => ?_, empty, cut⟩
  · rw [Checked.program_eq]
    rfl
  · rcases Nat.lt_or_ge incoming.length wordWidth with few | enough
    · rw [(cut few).2]
      exact .endOfStream
    rcases Nat.eq_zero_or_pos (announcedSize incoming) with wordless | pos
    · rw [(empty enough wordless).2]
      exact .refused trivial
    · obtain ⟨p, -, -, concludes⟩ := whole enough pos
      exact concludes
  · obtain ⟨p, own, guarded, -⟩ := whole enough pos
    exact ⟨p, own, guarded⟩

/-- A database without words has no word to print, so that everything has been printed, and it
is refused all the same. -/
theorem refuses_empty_announcement :
    let incoming : Bytes := List.replicate wordWidth 0
    let step := run (List.replicate 32 0) incoming fun _ _ => ([], [])
    announcedSize incoming = 0
      ∧ ¬ (step.outcome = .ok ()
        ↔ step.state.printed.map Prod.fst = listed (announcedSize incoming)) := by
  intro incoming step
  have wordless : announcedSize incoming = 0 := by decide
  have refused : step = _ := program_of_failure (readDatabase_of_empty (by decide) wordless)
  rw [wordless, refused]
  exact ⟨rfl, fun both => absurd (both.mpr rfl) (by simp)⟩

end PrivateRetrieval.Reader
