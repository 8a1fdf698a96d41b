/-
Three ways to ask for a word.

A word can be asked for with values, step by step; with bytes, in two steps around a
transport; and all at once.  The ways differ in where a query is encoded, in where an
answer is decoded, and in what is done after a failure.  In front of a server they
come to the same, event by event and field by field:

* **`Client.askByValues`**, **`Client.askByBytes`** — the first two of them, over a server, and
  **`Client.roundByValues`** — the first for a random index;
* **`Client.processResponse_decodes`** — an answer in bytes is undecodable and changes nothing,
  or is taken as the parities that it encodes;
* **`Client.surfaces_agree`** — in every state that can be reached, all of them are the same step.
-/
import PrivateRetrieval.Client.Drive
import PrivateRetrieval.Proofs.Conversation

namespace PrivateRetrieval

variable {σ K : Type} [Prf K]

namespace Client

/-- The word that the server's parities leave for the query of a client. -/
def deliver (s : Server) (query : Query) : Act σ K UInt64 := do
  let offsets ← Action.read (prepare · query)
  let parities ← (s.process offsets).toAction
  recover query parities

/-- The word of an index, step by step: a hint is selected, its punctured offsets are
processed, and the parities are taken. -/
def askByValues (s : Server) (index : Nat) : Act σ K UInt64 := do
  let query ← select index
  deliver s query

/-- The word of an index in bytes: a query, the response to it, and what the response leaves. -/
def askByBytes (s : Server) (index : Nat) : Act σ K UInt64 := do
  let bytes ← query index
  let response ← (s.respond bytes).toAction
  processResponse response

/-- The word of a random index, step by step, beside the index. -/
def roundByValues [RandomSource σ] (s : Server) : Act σ K (Nat × UInt64) := do
  let query ← randomQuery
  let word ← deliver s query
  return (query.index, word)

variable {s : Server} {client : Client σ K} {query : Query}

/-! ### After the selection -/

/-- A query that is pending is delivered in bytes as it is in values. -/
theorem Facing.deliver_eq (facing : client.Facing s) (pending : client.pending = some query)
    {offsets : List Nat} (prepared : client.prepare query = .ok offsets) :
    deliver s query client = exchange s.respond (encodeOffsets offsets) client := by
  rw [deliver, Action.read_bind, prepared]
  exact (facing.exchange_eq pending prepared).symm

omit [Prf K] in
theorem processResponse_decodes (pending : client.pending = some query) (response : Bytes) :
    (∃ why, Words.decode response = .error (.undecodable why)
      ∧ processResponse response client = ⟨.error (.undecodable why), client, []⟩)
    ∨ ∃ parities, Words.decode response = .ok parities
      ∧ processResponse response client = recover query parities client := by
  rw [processResponse_of_pending pending]
  cases decoded : Words.decode response with
  | ok parities => exact .inr ⟨parities, rfl, rfl⟩
  | error cause =>
    obtain ⟨why, rfl⟩ := Words.undecodable_of_error decoded
    exact .inl ⟨why, rfl, rfl⟩

/-! ### A given index -/

theorem Facing.askByBytes_eq [KeySource σ K] (facing : client.Facing s) (index : Nat) :
    askByBytes s index client = askByValues s index client := by
  cases selected : (select index client).outcome with
  | error cause =>
    have asked : (Client.query index client).outcome = .error cause := by
      rw [Client.query, Action.bind_of_error selected]
    rw [askByBytes, askByValues, Action.bind_of_error asked, Action.bind_of_error selected,
      Client.query, Action.bind_of_error selected]
  | fault cause =>
    have asked : (Client.query index client).outcome = .fault cause := by
      rw [Client.query, Action.bind_of_fault selected]
    rw [askByBytes, askByValues, Action.bind_of_fault asked, Action.bind_of_fault selected,
      Client.query, Action.bind_of_fault selected]
  | ok query =>
    obtain ⟨selects, -, eq⟩ := select_of_ok selected
    have waiting := facing.waiting selects
    obtain ⟨offsets, prepared⟩ :=
      waiting.consistent.prepare_ok (client.pending_awaiting query)
    have delivered := waiting.deliver_eq (client.pending_awaiting query) prepared
    have asked : Client.query index client
        = ⟨.ok (encodeOffsets offsets), client.awaiting query, []⟩ := by
      rw [query_of_select_ok selected, prepared]
      rfl
    rw [askByBytes, askByValues, Action.bind_of_ok (congrArg Step.outcome asked),
      Action.bind_of_ok selected, asked, eq]
    dsimp only
    rw [delivered]
    rfl

/-- All at once, an index that is not known is asked for in bytes; what would be given up after
a failure is not pending any more. -/
theorem Facing.retrieve_eq [KeySource σ K] (facing : client.Facing s) {index : Nat}
    (unknown : client.cached index = none) :
    retrieve index s.respond client = askByBytes s index client := by
  rw [retrieve_of_unknown s.respond unknown]
  show _ = (Client.query index >>= exchange s.respond) client
  cases asked : (Client.query index client).outcome with
  | error cause => rw [Action.bind_of_error asked, Action.bind_of_error asked]
  | fault cause => rw [Action.bind_of_fault asked, Action.bind_of_fault asked]
  | ok bytes =>
    obtain ⟨query, selected⟩ := select_of_query_ok asked
    obtain ⟨selects, -, -⟩ := select_of_ok selected
    have waiting := facing.waiting selects
    obtain ⟨offsets, prepared⟩ :=
      waiting.consistent.prepare_ok (client.pending_awaiting query)
    have made := query_of_select_ok selected
    rw [prepared] at made
    obtain rfl : encodeOffsets offsets = bytes :=
      Outcome.ok.inj ((congrArg Step.outcome made).symm.trans asked)
    rw [Action.bind_of_ok asked, Action.bind_of_ok asked, made,
      waiting.guarded_eq (client.pending_awaiting query) prepared]

/-! ### A random index -/

theorem Facing.round_eq [KeySource σ K] [RandomSource σ] (facing : client.Facing s) :
    round s client = roundByValues s client := by
  cases selected : (randomQuery client).outcome with
  | error cause =>
    have asked : (randomQueryBytes client).outcome = .error cause := by
      rw [randomQueryBytes, Action.bind_of_error selected]
    rw [round, roundByValues, Action.bind_of_error asked, Action.bind_of_error selected,
      randomQueryBytes, Action.bind_of_error selected]
  | fault cause =>
    have asked : (randomQueryBytes client).outcome = .fault cause := by
      rw [randomQueryBytes, Action.bind_of_fault selected]
    rw [round, roundByValues, Action.bind_of_fault asked, Action.bind_of_fault selected,
      randomQueryBytes, Action.bind_of_fault selected]
  | ok query =>
    obtain ⟨source, offsets, waiting, eq, prepared, asked⟩ := facing.randomQueryBytes_of_ok selected
    have delivered := waiting.deliver_eq (pending_awaiting _ query) prepared
    rw [round, roundByValues, Action.bind_of_ok (congrArg Step.outcome asked),
      Action.bind_of_ok selected, asked, eq]
    dsimp only
    rw [Action.bind_congr_left delivered, exchange, Action.bind_assoc]

/-! ### All of them -/

/-- **The surfaces agree.**  Whatever was asked of a session and whatever was answered, to ask a
server of as many words for a word is the same step in values, in bytes and all at once: it has
the same outcome and the same events, and leaves the same state.  Bytes that answer a query are
undecodable, or the parities that they encode are taken. -/
theorem surfaces_agree [KeySource σ K] [RandomSource σ] {s : Server} {p : Params}
    (derived : p.Derived s.words.size) (few : p.chunkCount < UInt32.size) {source : σ}
    {stream : List Chunk} (ready : (setup (K := K) p source stream).outcome = .ok ())
    (run : List Operation) :
    let last := (setup (K := K) p source stream).state.after run
    (∀ index, askByBytes s index last = askByValues s index last)
      ∧ (∀ index, last.cached index = none →
        retrieve index s.respond last = askByBytes s index last)
      ∧ round s last = roundByValues s last
      ∧ ∀ (client : Client σ K) (query : Query) (response : Bytes),
        client.pending = some query →
        (∃ why, Words.decode response = .error (.undecodable why)
          ∧ processResponse response client = ⟨.error (.undecodable why), client, []⟩)
        ∨ ∃ parities, Words.decode response = .ok parities
          ∧ processResponse response client = recover query parities client := by
  have facing := facing_after (K := K) derived few ready run
  refine ⟨facing.askByBytes_eq, fun _ => facing.retrieve_eq, facing.round_eq, ?_⟩
  exact fun client query response pending => processResponse_decodes pending response

/-- A wrong answer for index 0 has used the only backup hint of the first chunk. On all three ways
index 1 then costs its hint, and the word is kept. -/
theorem surfaces_agree_on_exhausted_chunk :
    let last := Small.client.after [.select 0, .recover ⟨0, 0, 0⟩ [0, 0]]
    (retrieve 1 Small.server.respond last).outcome = .error (.backupsExhausted 0 1)
      ∧ (askByBytes Small.server 1 last).events = [.processed 2, .exhausted 0 1]
      ∧ (askByBytes Small.server 1 last).state = (askByValues Small.server 1 last).state
      ∧ (askByValues Small.server 1 last).state.cached 1 = some 20 := by
  intro last
  obtain ⟨values, whole, -⟩ := surfaces_agree (K := LiteralKey) (s := Small.server) Small.derived
    (by decide) Small.setup_ok [.select 0, .recover ⟨0, 0, 0⟩ [0, 0]]
  have unknown : last.cached 1 = none := by decide
  refine ⟨?_, ?_, congrArg Step.state (values 1), by decide⟩
  · exact (congrArg Step.outcome ((whole 1 unknown).trans (values 1))).trans (by decide)
  · exact (congrArg Step.events (values 1)).trans (by decide)

end Client

end PrivateRetrieval
