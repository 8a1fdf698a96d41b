/-
What a session sends does not depend on words.

Two sessions draw from equal sources and are asked the same.  Their databases have
nothing in common but their shape, and their servers may answer as they like, as
long as the answers have the same shape.  Nobody can tell the sessions apart but
by the words that they yield:

* **`Operation.Alike`** — the same request, with answers of one shape;
* **`Client.Alike`** — two states that differ in parities and kept words only;
* **`Client.turns_alike`** — states with one shadow stay so, and everything they
  yield and send is the same;
* **`Client.oblivious`** — so it is from the setup on.
-/
import Mathlib.Data.List.Forall2
import PrivateRetrieval.Proofs.Shadow

namespace PrivateRetrieval

variable {σ K : Type}

/-! ### The same requests -/

/-- Bytes of one length, with the same count in front. -/
def Words.Alike (bytes bytes' : Bytes) : Prop :=
  bytes.length = bytes'.length ∧ bytes.take prefixWidth = bytes'.take prefixWidth

theorem Words.Alike.blank_eq {bytes bytes' : Bytes} (alike : Words.Alike bytes bytes') :
    Words.blank bytes = Words.blank bytes' := by
  rw [Words.blank, Words.blank, alike.1, alike.2]

/-- Both fail the same way, or both carry bytes that are alike. -/
inductive Reply.Alike (reply reply' : Reply Bytes) : Prop where
  | carried {response response' : Bytes} (told : reply.result = .ok response)
    (told' : reply'.result = .ok response') (alike : Words.Alike response response')
  | failed {cause : Error} (told : reply.result = .error cause)
    (told' : reply'.result = .error cause)

theorem Reply.Alike.blank_eq {reply reply' : Reply Bytes} (alike : reply.Alike reply') :
    reply.blank = reply'.blank := by
  rw [Reply.blank, Reply.blank]
  cases alike with
  | carried told told' alike =>
    rw [told, told']
    exact congrArg (fun response => Reply.ofExcept (.ok response)) alike.blank_eq
  | failed told told' => rw [told, told']

namespace Operation

/-- The same request of two sessions, where the other side contributes words of any
kind but of the same shape. -/
inductive Alike : Operation → Operation → Prop where
  | select (index : Nat) : Alike (.select index) (.select index)
  | randomQuery : Alike .randomQuery .randomQuery
  | query (index : Nat) : Alike (.query index) (.query index)
  | randomQueryBytes : Alike .randomQueryBytes .randomQueryBytes
  | prepare (handle : Query) : Alike (.prepare handle) (.prepare handle)
  | recover (handle : Query) {parities parities' : List UInt64}
    (length : parities.length = parities'.length) :
    Alike (.recover handle parities) (.recover handle parities')
  | processResponse {response response' : Bytes} (alike : Words.Alike response response') :
    Alike (.processResponse response) (.processResponse response')
  | retrieve (index : Nat) {respond respond' : Bytes → Reply Bytes}
    (alike : ∀ bytes, (respond bytes).Alike (respond' bytes)) :
    Alike (.retrieve index respond) (.retrieve index respond')
  | discard : Alike .discard .discard
  | rebuild {stream stream' : List Chunk}
    (shape : stream.map List.length = stream'.map List.length) :
    Alike (.rebuild stream) (.rebuild stream')

end Operation

/-- The shadow of a stream is made of the lengths of its chunks. -/
theorem map_blank_eq {stream stream' : List Chunk}
    (shape : stream.map List.length = stream'.map List.length) :
    stream.map Chunk.blank = stream'.map Chunk.blank := by
  have made (stream : List Chunk) :
      stream.map Chunk.blank = (stream.map List.length).map (List.replicate · 0) := by
    rw [List.map_map]
    rfl
  rw [made, made, shape]

theorem Operation.Alike.blank_eq {operation operation' : Operation}
    (alike : operation.Alike operation') : operation.blank = operation'.blank := by
  cases alike with
  | recover handle length => rw [blank, blank, Chunk.blank, Chunk.blank, length]
  | processResponse alike => rw [blank, blank, alike.blank_eq]
  | retrieve index alike =>
    exact congrArg (Operation.retrieve index) (funext fun bytes => (alike bytes).blank_eq)
  | rebuild shape => exact congrArg Operation.rebuild (map_blank_eq shape)
  | _ => rfl

/-! ### The same states -/

namespace Client

/-- Two states that differ at most in parities and in the words that are kept: the
same indices are known, and slot by slot the same hints are live, with the same keys
and points. -/
structure Alike (client client' : Client σ K) : Prop where
  params : client.params = client'.params
  source : client.source = client'.source
  pending : client.pending = client'.pending
  consumed : client.consumed = client'.consumed
  known : ∀ index, (client.cached index).isSome = (client'.cached index).isSome
  primary : ∀ slot, (client.tables.hint? slot).map Hint.bare
    = (client'.tables.hint? slot).map Hint.bare
  backup : ∀ group position, (client.tables.backup? group position).map Hint.bare
    = (client'.tables.backup? group position).map Hint.bare

theorem alike_of_blank {client client' : Client σ K} (same : client.blank = client'.blank) :
    client.Alike client' where
  params := congrArg (·.params) same
  source := congrArg (·.source) same
  pending := congrArg (·.pending) same
  consumed := congrArg (·.consumed) same
  known index := by
    have shadow := congrArg (fun found => (found.cached index).isSome) same
    simpa only [cached_blank, Option.isSome_map] using shadow
  primary slot := by
    rw [← Tables.hint?_bare, ← Tables.hint?_bare]
    exact congrArg (fun found => found.tables.hint? slot) same
  backup group position := by
    rw [← Tables.backup?_bare, ← Tables.backup?_bare]
    exact congrArg (fun found => found.tables.backup? group position) same

end Client

variable [Prf K] [RandomSource σ] [KeySource σ K]

/-! ### The same turns -/

/-- What a retrieval hands to its transport. -/
def Operation.handed (client : Client σ K) : Operation → Option Bytes
  | .retrieve index _ =>
    match (Client.query index client).outcome with
    | .ok bytes => some bytes
    | _ => none
  | _ => none

/-- Two turns that nobody can tell apart but by the words that are yielded. -/
structure Turn.Alike (turn turn' : Turn σ K) : Prop where
  outcome : Result.blank <$> turn.step.outcome = Result.blank <$> turn'.step.outcome
  handed : turn.operation.handed turn.client = turn'.operation.handed turn'.client
  state : turn.step.state.Alike turn'.step.state

namespace Client

variable {client client' : Client σ K}

omit [RandomSource σ] [KeySource σ K] in
theorem handed_blank (client : Client σ K) (operation : Operation) :
    operation.blank.handed client.blank = operation.handed client := by
  cases operation with
  | retrieve index respond =>
    rw [Operation.blank, Operation.handed, Operation.handed, (shadows_query index client).1]
    cases (Client.query index client).outcome with
    | ok bytes => rfl
    | error cause => rfl
    | fault cause => rfl
  | _ => rfl

theorem turn_alike (same : client.blank = client'.blank) {operation operation' : Operation}
    (alike : operation.Alike operation') :
    Turn.Alike ⟨client, operation⟩ ⟨client', operation'⟩
      ∧ (operation.act client).state.blank = (operation'.act client').state.blank := by
  obtain ⟨outcome, state⟩ := operation.shadows client
  obtain ⟨outcome', state'⟩ := operation'.shadows client'
  -- Both operations have one shadow, and it starts from one state.
  rw [same, alike.blank_eq] at outcome state
  have states := state.symm.trans state'
  refine ⟨⟨outcome.symm.trans outcome', ?_, alike_of_blank states⟩, states⟩
  show operation.handed client = operation'.handed client'
  rw [← handed_blank client, ← handed_blank client', same, alike.blank_eq]

theorem turns_alike {run run' : List Operation} (alike : List.Forall₂ Operation.Alike run run') :
    ∀ {client client' : Client σ K}, client.blank = client'.blank →
      List.Forall₂ Turn.Alike (client.turns run) (client'.turns run') := by
  induction alike with
  | nil => exact fun _ => .nil
  | cons first _ ih =>
    intro client client' same
    obtain ⟨turn, states⟩ := turn_alike same first
    exact .cons turn (ih states)

/-- **Obliviousness.**  Two sessions with equal parameters and sources, over streams of
one shape, are asked the same and get answers of one shape.  Then they yield and send
the same in every turn, words aside, and their states stay alike. -/
theorem oblivious (p : Params) (source : σ) {stream stream' : List Chunk}
    (shape : stream.map List.length = stream'.map List.length) {run run' : List Operation}
    (alike : List.Forall₂ Operation.Alike run run') :
    let first := setup (K := K) p source stream
    let first' := setup (K := K) p source stream'
    first.outcome = first'.outcome ∧ first.state.Alike first'.state
      ∧ List.Forall₂ Turn.Alike (first.state.turns run) (first'.state.turns run') := by
  intro first first'
  have shadow (stream : List Chunk) :=
    shadows_rebuild (K := K) stream ({ params := p, source } : Client σ K)
  obtain ⟨outcome, state⟩ := shadow stream
  obtain ⟨outcome', state'⟩ := shadow stream'
  rw [map_blank_eq shape] at outcome state
  have states : first.state.blank = first'.state.blank := state.symm.trans state'
  have outcomes : id <$> first.outcome = id <$> first'.outcome := outcome.symm.trans outcome'
  rw [Outcome.id_map, Outcome.id_map] at outcomes
  exact ⟨outcomes, alike_of_blank states, turns_alike alike states⟩

/-- Two databases, and two servers that tell neither of them: the words differ, and the
turns do not. -/
theorem oblivious_of_wrong_answers :
    let other : Client (Scripted Keystream) LiteralKey :=
      (setup Small.params Small.source [[1, 2], [3, 4]]).state
    let run : List Operation := [.select 0, .recover ⟨0, 0, 0⟩ [0, 0],
      .retrieve 2 fun _ => .ofExcept (.ok (Words.encode [1, 2])), .select 3]
    let run' : List Operation := [.select 0, .recover ⟨0, 0, 0⟩ [7, 8],
      .retrieve 2 fun _ => .ofExcept (.ok (Words.encode [3, 4])), .select 3]
    List.Forall₂ Operation.Alike run run'
      ∧ (Small.client.after run).cached 0 ≠ (other.after run').cached 0
      ∧ List.Forall₂ Turn.Alike (Small.client.turns run) (other.turns run') := by
  intro other run run'
  have alike : List.Forall₂ Operation.Alike run run' := by
    refine .cons (.select 0) (.cons (.recover _ rfl) (.cons (.retrieve 2 fun _ => ?_)
      (.cons (.select 3) .nil)))
    exact .carried rfl rfl ⟨rfl, rfl⟩
  have shape : Small.server.chunks.map List.length
      = ([[1, 2], [3, 4]] : List Chunk).map List.length := rfl
  obtain ⟨-, -, turns⟩ := oblivious (K := LiteralKey) Small.params Small.source shape alike
  exact ⟨alike, by decide, turns⟩

end Client

end PrivateRetrieval
