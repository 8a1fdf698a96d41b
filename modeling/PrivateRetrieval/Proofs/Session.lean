/-
Sessions: operations in any order, with any answers.

An operation carries whatever the other side contributes to it: the parities or
bytes of an answer, the chunks of a stream, the behaviour of a transport.  A
session is a list of operations, so a statement about all lists covers every
schedule and every server, honest or not:

* **`Operation.act`** — an operation as a step of a client;
* **`Client.after`**, **`Client.turns`** — the state after a run, and each of its
  operations with the state that it found;
* **`Operation.milestones`**, **`Client.history`** — what a run has done to queries
  and hints, as far as the outcomes tell.
-/
import PrivateRetrieval.Client.Build
import PrivateRetrieval.Client.Recover
import PrivateRetrieval.Prf.Literal
import PrivateRetrieval.Proofs.Chunking
import PrivateRetrieval.Server

namespace PrivateRetrieval

/-- What can be asked of a session, with what the other side contributes. -/
inductive Operation where
  | select (index : Nat)
  | randomQuery
  | query (index : Nat)
  | randomQueryBytes
  | prepare (query : Query)
  | recover (query : Query) (parities : List UInt64)
  | processResponse (response : Bytes)
  | retrieve (index : Nat) (respond : Bytes → Reply Bytes)
  | discard
  | rebuild (stream : List Chunk)

/-- What an operation yields. -/
inductive Result where
  | query (query : Query)
  | offsets (offsets : List Nat)
  | bytes (bytes : Bytes)
  | indexedBytes (index : Nat) (bytes : Bytes)
  | word (word : UInt64)
  | discarded (query : Option Query)
  | rebuilt
deriving DecidableEq

/-- What marks the life of a query and of the hint that serves it. -/
inductive Milestone where
  /-- Both tables were built afresh. -/
  | built (stream : List Chunk)
  /-- A hint was selected. -/
  | selected (query : Query)
  /-- The query was answered, and its slot took the backup hint of that position
  in the group of its chunk. -/
  | refreshed (query : Query) (position : Nat)
  /-- The query was answered, and its slot stays empty for want of a backup hint. -/
  | exhausted (query : Query)
  /-- The query was given up, and its slot stays empty. -/
  | discarded (query : Query)
deriving DecidableEq

variable {σ K : Type}

namespace Milestone

/-- How an attempt to select a hint ended. -/
def ofSelection : Outcome Error Query → List Milestone
  | .ok query => [.selected query]
  | _ => []

/-- How an answer to the query of a client was taken. -/
def ofAnswer (client : Client σ K) (query : Query) : Outcome Error UInt64 → List Milestone
  | .ok _ => [.refreshed query (client.consumed.getD query.chunk 0)]
  | .error (.backupsExhausted _ _) => [.exhausted query]
  | _ => []

theorem ofAnswer_eq_nil (client : Client σ K) (query : Query) {outcome : Outcome Error UInt64}
    (noWord : ∀ word, outcome ≠ .ok word)
    (notSpent : ∀ chunk index, outcome ≠ .error (.backupsExhausted chunk index)) :
    ofAnswer client query outcome = [] := by
  unfold ofAnswer
  split
  · rename_i word
    exact absurd rfl (noWord word)
  · rename_i chunk index
    exact absurd rfl (notSpent chunk index)
  · rfl

/-- How a retrieval of a client went on once it had selected a hint. A word that
was kept in spite of an error was the last of its chunk. -/
def ofRetrieval (client : Client σ K) (query : Query) (step : Step Error (Client σ K) UInt64) :
    List Milestone :=
  match step.outcome with
  | .ok _ => [.refreshed query (client.consumed.getD query.chunk 0)]
  | .error _ =>
    if step.state.cache.contains query.index then [.exhausted query] else [.discarded query]
  | .fault _ => []

end Milestone

variable [Prf K] [RandomSource σ] [KeySource σ K]

namespace Operation

/-- An operation as a step of a client. -/
def act : Operation → Client.Act σ K Result
  | .select index => Result.query <$> Client.select index
  | .randomQuery => Result.query <$> Client.randomQuery
  | .query index => Result.bytes <$> Client.query index
  | .randomQueryBytes =>
    (fun found => Result.indexedBytes found.1 found.2) <$> Client.randomQueryBytes
  | .prepare handle => Result.offsets <$> Action.read (Client.prepare · handle)
  | .recover handle parities => Result.word <$> Client.recover handle parities
  | .processResponse response => Result.word <$> Client.processResponse response
  | .retrieve index respond => Result.word <$> Client.retrieve index respond
  | .discard => Result.discarded <$> Client.discard
  | .rebuild stream => (fun _ => Result.rebuilt) <$> Client.rebuild stream

/-- What an operation does to queries and hints, told from its outcome. -/
def milestones (client : Client σ K) : Operation → List Milestone
  | .select index | .query index =>
    Milestone.ofSelection (Client.select index client).outcome
  | .randomQuery | .randomQueryBytes =>
    Milestone.ofSelection (Client.randomQuery client).outcome
  | .prepare _ => []
  | .recover handle parities =>
    Milestone.ofAnswer client handle (Client.recover handle parities client).outcome
  | .processResponse response =>
    match client.pending with
    | some handle =>
      Milestone.ofAnswer client handle (Client.processResponse response client).outcome
    | none => []
  | .retrieve index respond =>
    match (Client.select index client).outcome with
    | .ok handle =>
      .selected handle :: Milestone.ofRetrieval client handle (Client.retrieve index respond client)
    | _ => []
  | .discard =>
    match (Client.discard client).outcome with
    | .ok (some handle) => [.discarded handle]
    | _ => []
  | .rebuild stream =>
    match (Client.rebuild stream client).outcome with
    | .ok () => [.built stream]
    | _ => []

end Operation

/-- One operation of a run, and the state that it finds. -/
structure Turn (σ K : Type) where
  client : Client σ K
  operation : Operation

/-- What the operation of a turn does. -/
def Turn.step (turn : Turn σ K) : Step Error (Client σ K) Result :=
  turn.operation.act turn.client

namespace Client

/-- The state after a run. -/
def after (client : Client σ K) : (run : List Operation) → Client σ K
  | [] => client
  | operation :: rest => (operation.act client).state.after rest

/-- The turns of a run. -/
def turns (client : Client σ K) : (run : List Operation) → List (Turn σ K)
  | [] => []
  | operation :: rest => ⟨client, operation⟩ :: (operation.act client).state.turns rest

/-- Every operation of a run is allowed in the state that it finds. -/
def Throughout (allowed : Client σ K → Operation → Prop) (client : Client σ K) :
    (run : List Operation) → Prop
  | [] => True
  | operation :: rest =>
    allowed client operation ∧ Throughout allowed (operation.act client).state rest

/-- The milestones of a run. -/
def history (client : Client σ K) : (run : List Operation) → List Milestone
  | [] => []
  | operation :: rest => operation.milestones client ++ (operation.act client).state.history rest

end Client

/-! ### A small session -/

namespace Small

/-- Four words in two chunks, two primary hints and one backup hint for each chunk. -/
def params : Params := ⟨4, 2, 2, 1, 2, 1⟩

theorem derived : params.Derived 4 := .inr ⟨1, 2, 1, rfl⟩

/-- Keys that pass through the indices 0 and 3, 1 and 3, 0 and 2, 1 and 2. -/
def source : Scripted Keystream :=
  ⟨Keystream.ofSeed [], [⟨[0, 1]⟩, ⟨[1, 1]⟩, ⟨[0, 0]⟩, ⟨[1, 0]⟩]⟩

theorem ofSize_four : Params.ofSize 4 = .ok ⟨4, 2, 2, 3, 12, 8⟩ := by
  have value : (Params.ofSize 4).toOption = some ⟨4, 2, 2, 3, 12, 8⟩ := by decide +kernel
  cases outcome : Params.ofSize 4 with
  | ok p =>
    rw [outcome] at value
    exact congrArg Except.ok (Option.some.inj value)
  | error cause =>
    rw [outcome] at value
    exact absurd value (by simp [Except.toOption])

/-- A server of four words. -/
def server : Server := ⟨#[10, 20, 30, 40], ⟨4, 2, 2, 3, 12, 8⟩, ofSize_four⟩

/-- A client of that server. -/
def client : Client (Scripted Keystream) LiteralKey :=
  (Client.setup params source server.chunks).state

theorem setup_ok :
    (Client.setup (K := LiteralKey) params source server.chunks).outcome = .ok () := by
  decide

end Small

end PrivateRetrieval
