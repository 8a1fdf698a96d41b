/-
What a failed build leaves behind.

A build draws its keys before it looks at the stream, and a stream that is refused does not give
them back.  Tables, cache, counters and the pending query are as before, but the source has moved
on, and all random indices and all keys of later builds come from it:

* **`Client.turns_onto`** — no operation that draws nothing can tell one source from another, and
  all turns of a run of such operations show the same on both;
* **`Client.Disturbed`** — so this is what a refused build comes to, whatever the source is
  (`Client.disturbed_rebuild`);
* **`Client.refused_rebuild`** — over the keystream, the state after a refused build is never the
  state before it.
-/
import PrivateRetrieval.Proofs.Acceptance
import PrivateRetrieval.Proofs.Obliviousness
import PrivateRetrieval.Prf.TurboShake

namespace PrivateRetrieval

variable {σ τ K : Type} [Prf K] [RandomSource σ] [KeySource σ K] [RandomSource τ] [KeySource τ K]

/-- All that a turn lets anyone see: its outcome, what a retrieval hands to its transport, and the
events. -/
def Turn.shown (turn : Turn σ K) : Outcome Error Result × Option Bytes × List Event :=
  (turn.step.outcome, turn.operation.handed turn.client, turn.step.events)

namespace Client

omit [RandomSource σ] [KeySource σ K] [RandomSource τ] [KeySource τ K] in
theorem handed_onto (client : Client σ K) (source : τ) (operation : Operation) :
    operation.handed (client.onto source) = operation.handed client := by
  cases operation with
  | retrieve index respond =>
    obtain ⟨left, -, eq⟩ := query_alongside (R := fun _ _ => True) index client source trivial
    rw [Operation.handed, Operation.handed, eq]
  | _ => rfl

/-- An operation that draws nothing shows the same on any source, and leaves it. -/
theorem turn_onto {operation : Operation} (still : operation.Still) (client : Client σ K)
    (source : τ) :
    Turn.shown ⟨client.onto source, operation⟩ = Turn.shown ⟨client, operation⟩
      ∧ (operation.act (client.onto source)).state
        = (operation.act client).state.onto source := by
  obtain ⟨left, rfl, eq⟩ :=
    Operation.still_alongside (R := fun _ found => found = source) still client source rfl
  refine ⟨?_, congrArg Step.state eq⟩
  rw [Turn.shown, Turn.shown, Turn.step, handed_onto, eq]
  rfl

theorem turns_onto {run : List Operation} (source : τ) :
    (∀ operation ∈ run, operation.Still) → ∀ client : Client σ K,
      ((client.onto source).turns run).map Turn.shown = (client.turns run).map Turn.shown
        ∧ (client.onto source).after run = (client.after run).onto source := by
  induction run with
  | nil => exact fun _ _ => ⟨rfl, rfl⟩
  | cons operation rest ih =>
    intro still client
    obtain ⟨shown, state⟩ := turn_onto (still operation List.mem_cons_self) client source
    obtain ⟨later, last⟩ := ih (fun next member => still next (List.mem_cons_of_mem _ member))
      (operation.act client).state
    rw [turns, turns, List.map_cons, List.map_cons, shown, after, after, state, later, last]
    exact ⟨rfl, rfl⟩

/-- What a refused build leaves of a client. -/
structure Disturbed (client left : Client σ K) : Prop where
  /-- Its source, and nothing else, has moved. -/
  moved : left = { client with source := skipKeys K client.params.keyCount client.source }
  untouched_iff : left = client ↔ skipKeys K client.params.keyCount client.source = client.source
  /-- It does not show before something is drawn. -/
  shown : ∀ run : List Operation, (∀ operation ∈ run, operation.Still) →
    (left.turns run).map Turn.shown = (client.turns run).map Turn.shown
      ∧ left.after run = { client.after run with source := left.source }

theorem disturbed_rebuild {client : Client σ K} (valid : client.params.Valid)
    {stream : List Chunk} {cause : Error}
    (refused : (rebuild stream client).outcome = .error cause) :
    (rebuild stream client).events = [] ∧ client.Disturbed (rebuild stream client).state := by
  have refuses := ((builds_rebuild valid stream).error_iff cause).mp refused
  rw [rebuild_of_refuses valid refuses]
  refine ⟨rfl, rfl, ⟨congrArg Client.source, fun back => ?_⟩, fun run still => ?_⟩
  · dsimp only
    rw [back]
  · exact turns_onto (skipKeys K client.params.keyCount client.source) still client

end Client

/-! ### Over the keystream -/

theorem Keystream.skipKeys_eq (count : Nat) (stream : Keystream) :
    skipKeys TurboShake.Key count stream
      = { stream with position := stream.position + 2 * count } := by
  induction count generalizing stream with
  | zero => rfl
  | succ count ih =>
    rw [skipKeys, ih]
    -- One key takes two words.
    have drawn : (KeySource.drawKey (K := TurboShake.Key) stream).2
        = { stream with position := stream.position + 2 } := rfl
    rw [drawn, Nat.mul_succ, Nat.add_comm (2 * count), ← Nat.add_assoc]

theorem Params.Valid.keyCount_pos {p : Params} (valid : p.Valid) : 0 < p.keyCount :=
  Nat.add_pos_left valid.primaryCount_pos _

namespace Client

/-- **A refused build.**  Everything but the source is left as it was, and this does not show
before something is drawn.  But over the keystream the source always moves, so that the session is
never left untouched. -/
theorem refused_rebuild {size : Nat} {p : Params} (derived : p.Derived size) :
    (∀ (client : Client σ K) (stream : List Chunk) (cause : Error), client.params = p →
      (rebuild stream client).outcome = .error cause →
        (rebuild stream client).events = [] ∧ client.Disturbed (rebuild stream client).state)
    ∧ ∀ (client : Client Keystream TurboShake.Key) (stream : List Chunk) (cause : Error),
      client.params = p → (rebuild stream client).outcome = .error cause →
        (rebuild stream client).state = { client with
          source.position := client.source.position + 2 * p.keyCount }
        ∧ (rebuild stream client).state ≠ client := by
  refine ⟨fun client stream cause params refused => ?_,
    fun client stream cause params refused => ?_⟩
  · exact disturbed_rebuild (params ▸ derived.valid) refused
  · subst params
    have moved := (disturbed_rebuild derived.valid refused).2.moved
    rw [Keystream.skipKeys_eq] at moved
    refine ⟨moved, fun back => ?_⟩
    have position := congrArg (·.source.position) (back.symm.trans moved)
    have drawn := derived.valid.keyCount_pos
    dsimp only at position
    omega

end Client

namespace Small

/-- Two words in two chunks, one primary hint and one backup hint for each chunk. -/
def pair : Params := ⟨2, 1, 2, 1, 1, 1⟩

theorem derived_pair : pair.Derived 2 := .inr ⟨1, 1, 1, rfl⟩

/-- The keystream of the zero seed. -/
def stream : Keystream := .ofSeed (List.replicate 32 0)

/-- A session over that keystream. -/
def streamed : Client Keystream TurboShake.Key :=
  (Client.setup pair stream [[10], [20]]).state

end Small

namespace Client

/-- Three keys are gone after the end of an empty stream. -/
theorem refused_rebuild_of_empty :
    Small.pair.Derived 2 ∧ (rebuild [] Small.streamed).outcome = .error (.chunkCount 2 0)
    ∧ Small.streamed.Disturbed (rebuild [] Small.streamed).state
    ∧ (rebuild [] Small.streamed).state ≠ Small.streamed := by
  have refused : (rebuild [] Small.streamed).outcome = .error (.chunkCount 2 0) := by
    decide +kernel
  have params : Small.streamed.params = Small.pair := rfl
  obtain ⟨any, streamed⟩ :=
    refused_rebuild (σ := Keystream) (K := TurboShake.Key) Small.derived_pair
  exact ⟨Small.derived_pair, refused, (any Small.streamed [] _ params refused).2,
    (streamed Small.streamed [] _ params refused).2⟩

/-- The words that are gone with these keys would have given index 0. -/
theorem random_index_after_refused_rebuild :
    (setup (K := TurboShake.Key) Small.pair Small.stream [[10], [20]]).outcome = .ok ()
    ∧ (rebuild [] Small.streamed).outcome = .error (.chunkCount 2 0)
    ∧ (randomQuery Small.streamed).outcome = .ok ⟨0, 0, 0⟩
    ∧ (randomQuery (rebuild [] Small.streamed).state).outcome = .ok ⟨1, 1, 0⟩ := by
  decide +kernel

end Client

end PrivateRetrieval
