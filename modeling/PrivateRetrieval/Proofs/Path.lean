/-
Runs as paths of elementary changes.

Whatever is asked of a session, its state moves by six kinds of change: the
source is drawn from, a hint is selected, an answer is taken with or without a
backup hint left, a query is given up, the tables are built afresh.  An invariant
of these is an invariant of every run:

* **`Client.Change`** — the six changes, each with its milestone;
* **`Client.Path`** — changes in a row (`Client.Path.invariant`), which can be cut at
  a milestone (`Client.Path.split`);
* **`Operation.path`**, **`Client.path_after`** — every operation, and so every run,
  is a path with the milestones of its history.

A `Peer` bounds what answers and streams may bring; `Peer.any` stands for a
server that may do as it likes.
-/
import PrivateRetrieval.Proofs.Steps

namespace PrivateRetrieval

variable {σ K : Type}

/-- What the other side may do. -/
structure Peer (σ K : Type) where
  /-- Which words an answer may leave for the pending query of a client. -/
  leaves : Client σ K → Query → UInt64 → Prop
  /-- Which streams may be read into fresh tables. -/
  sends : List Chunk → Prop

/-- A peer that may send anything. -/
def Peer.any : Peer σ K := ⟨fun _ _ _ => True, fun _ => True⟩

variable [Prf K] [KeySource σ K] {peer : Peer σ K}

namespace Client

/-- An elementary change of a session. -/
inductive Change (peer : Peer σ K) : Client σ K → List Milestone → Client σ K → Prop where
  | draw {client : Client σ K} (source : σ) : Change peer client [] { client with source }
  | select {client : Client σ K} {query : Query} (selects : client.Selects query) :
    Change peer client [.selected query] (client.awaiting query)
  | refresh {client : Client σ K} {query : Query} {word : UInt64} {hint : Hint K} {position : Nat}
    (pending : client.pending = some query)
    (next : client.nextBackup query.chunk = some (hint, position))
    (left : peer.leaves client query word) :
    Change peer client [.refreshed query position] (client.refreshed query word hint position)
  | exhaust {client : Client σ K} {query : Query} {word : UInt64}
    (pending : client.pending = some query)
    (next : client.nextBackup query.chunk = none)
    (left : peer.leaves client query word) :
    Change peer client [.exhausted query] (client.spent query word)
  | discard {client : Client σ K} {query : Query} (pending : client.pending = some query) :
    Change peer client [.discarded query] (client.retired query)
  | rebuild {client : Client σ K} {stream : List Chunk} {tables : Tables K}
    (built : tables.Built client.params client.source stream) (sent : peer.sends stream) :
    Change peer client [.built stream] (client.rebuilt tables)

/-- Changes in a row, with their milestones. -/
inductive Path (peer : Peer σ K) : Client σ K → List Milestone → Client σ K → Prop where
  | nil {client : Client σ K} : Path peer client [] client
  | cons {first next last : Client σ K} {marks later : List Milestone}
    (change : Change peer first marks next) (rest : Path peer next later last) :
    Path peer first (marks ++ later) last

namespace Path

theorem single {first last : Client σ K} {marks : List Milestone}
    (change : Change peer first marks last) : Path peer first marks last := by
  have path := Path.cons change .nil
  rwa [List.append_nil] at path

theorem append {first middle last : Client σ K} {marks later : List Milestone}
    (path : Path peer first marks middle) (rest : Path peer middle later last) :
    Path peer first (marks ++ later) last := by
  induction path with
  | nil => exact rest
  | cons change _ ih =>
    rw [List.append_assoc]
    exact .cons change (ih rest)

/-- What every change preserves holds at the end of a path. -/
theorem invariant {P : Client σ K → Prop} {first last : Client σ K} {marks : List Milestone}
    (path : Path peer first marks last)
    (preserved : ∀ {before after : Client σ K} {marks : List Milestone},
      Change peer before marks after → P before → P after)
    (start : P first) : P last := by
  induction path with
  | nil => exact start
  | cons change _ ih => exact ih (preserved change start)

end Path

/-- A change has at most one milestone. -/
theorem Change.marks_cases {first last : Client σ K} {marks : List Milestone}
    (change : Change peer first marks last) : marks = [] ∨ ∃ mark, marks = [mark] := by
  cases change with
  | draw source => exact .inl rfl
  | _ => exact .inr ⟨_, rfl⟩

/-- A path can be cut at each of its milestones. -/
theorem Path.split {first last : Client σ K} {history : List Milestone}
    (path : Path peer first history last) : ∀ {front back : List Milestone} {mark : Milestone},
      history = front ++ mark :: back → ∃ before after, Path peer first front before
        ∧ Change peer before [mark] after ∧ Path peer after back last := by
  induction path with
  | nil =>
    intro front back mark eq
    exact absurd eq (by simp)
  | @cons first next last marks later change rest ih =>
    intro front back mark eq
    -- Only a change with a milestone of its own may be the one that is looked for.
    rcases change.marks_cases with rfl | ⟨own, rfl⟩
    · obtain ⟨before, after, path, here, path'⟩ := ih eq
      exact ⟨before, after, .cons change path, here, path'⟩
    · cases front with
      | nil =>
        obtain ⟨rfl, rfl⟩ := List.cons_eq_cons.mp eq
        exact ⟨first, next, .nil, change, rest⟩
      | cons head front =>
        obtain ⟨rfl, rest_eq⟩ := List.cons_eq_cons.mp eq
        obtain ⟨before, after, path, here, path'⟩ := ih rest_eq
        exact ⟨before, after, .cons change path, here, path'⟩

theorem Change.params_eq {first last : Client σ K} {marks : List Milestone}
    (change : Change peer first marks last) : last.params = first.params := by
  cases change <;> rfl

/-- The word that an answer in bytes leaves is one that the peer may leave. -/
def Takes (peer : Peer σ K) (client : Client σ K) (response : Bytes) : Prop :=
  ∀ query word, client.Carries query response word → peer.leaves client query word

end Client

namespace Operation

open Client

/-- What an operation brings from the other side is what the peer may bring. -/
def Supplied (peer : Peer σ K) (client : Client σ K) : Operation → Prop
  | .recover handle parities =>
    ∀ word, client.answer handle parities = .ok word → peer.leaves client handle word
  | .processResponse response => client.Takes peer response
  | .retrieve index respond =>
    ∀ bytes response, (Client.query index client).outcome = .ok bytes →
      (respond bytes).result = .ok response →
      (Client.query index client).state.Takes peer response
  | .rebuild stream => (Client.rebuild stream client).outcome = .ok () → peer.sends stream
  | _ => True

theorem supplied_any (client : Client σ K) (operation : Operation) :
    operation.Supplied Peer.any client := by
  cases operation <;> simp [Supplied, Takes, Peer.any]

/-- An answer is a change, or changes nothing. -/
theorem path_recover {client : Client σ K} {query : Query} {parities : List UInt64}
    (supplied : ∀ word, client.answer query parities = .ok word → peer.leaves client query word) :
    Path peer client
      (Milestone.ofAnswer client query (Client.recover query parities client).outcome)
      (Client.recover query parities client).state := by
  rcases recover_cases client query parities with ⟨word, answered⟩ | ⟨same, noWord, notSpent⟩
  · have pending := (answer_of_ok answered).1
    rw [recover_of_answer answered]
    cases next : client.nextBackup query.chunk with
    | some found =>
      obtain ⟨hint, position⟩ := found
      rw [show Milestone.ofAnswer client query (.ok word) = [.refreshed query position] by
        rw [(nextBackup_of_some next).1]; rfl]
      exact .single (.refresh pending next (supplied word answered))
    | none => exact .single (.exhaust pending next (supplied word answered))
  · rw [same]
    rw [Milestone.ofAnswer_eq_nil client query noWord notSpent]
    exact .nil

theorem path_select (client : Client σ K) (index : Nat) :
    Path peer client (Milestone.ofSelection (Client.select index client).outcome)
      (Client.select index client).state := by
  rcases select_cases index client with ⟨query, selects, -, eq⟩ | ⟨same, never⟩
  · rw [eq]
    exact .single (.select selects)
  · rw [same]
    cases outcome : (Client.select index client).outcome with
    | ok query => exact absurd outcome (never query)
    | error cause => exact .nil
    | fault cause => exact .nil

theorem path_query (client : Client σ K) (index : Nat) :
    Path peer client (Milestone.ofSelection (Client.select index client).outcome)
      (Client.query index client).state := by
  have path : Path peer _ _ _ := path_select client index
  by_cases selected : ∃ query, (Client.select index client).outcome = .ok query
  · obtain ⟨query, selected⟩ := selected
    rw [query_of_select_ok selected]
    rw [(select_of_ok selected).2.2] at path ⊢
    exact path
  · have never : ∀ query, (Client.select index client).outcome ≠ .ok query := not_exists.mp selected
    rw [(query_of_select_not_ok never).1]
    rcases select_cases index client with ⟨query, -, -, eq⟩ | ⟨same, -⟩
    · exact absurd (congrArg Step.outcome eq) (never query)
    · rwa [same] at path

variable [RandomSource σ]

theorem path_randomQuery (client : Client σ K) :
    Path peer client (Milestone.ofSelection (Client.randomQuery client).outcome)
      (Client.randomQuery client).state := by
  obtain ⟨source, ⟨query, selects, eq⟩ | ⟨moved, never⟩⟩ := randomQuery_cases client
  · rw [eq]
    exact .cons (.draw source) (.single (.select selects))
  · rw [moved]
    cases outcome : (Client.randomQuery client).outcome with
    | ok query => exact absurd outcome (never query)
    | error cause => exact .single (.draw source)
    | fault cause => exact .single (.draw source)

theorem milestones_retrieve_of_select_not_ok {client : Client σ K} {index : Nat}
    {respond : Bytes → Reply Bytes}
    (never : ∀ query, (Client.select index client).outcome ≠ .ok query) :
    (Operation.retrieve index respond).milestones client = [] := by
  rw [milestones]
  split
  · rename_i query outcome
    exact absurd outcome (never query)
  · rfl

omit [RandomSource σ] in
/-- How a retrieval goes on once it has selected a hint: it takes the answer or gives the query
up. -/
theorem path_ofRetrieval {client : Client σ K} {index : Nat} {respond : Bytes → Reply Bytes}
    {query : Query} (supplied : (Operation.retrieve index respond).Supplied peer client)
    (selected : (Client.select index client).outcome = .ok query) :
    Path peer (client.awaiting query)
      (Milestone.ofRetrieval client query (Client.retrieve index respond client))
      (Client.retrieve index respond client).state := by
  obtain ⟨selects, -, -⟩ := select_of_ok selected
  -- How it went on shows in the outcome, and for an error in what was kept.
  unfold Milestone.ofRetrieval
  rcases retrieve_of_select_ok respond selected with
    ⟨bytes, response, word, asked, told, carries, answered⟩
    | ⟨cause, ended, left⟩ | ⟨cause, ended, left⟩
  · have leaves : peer.leaves (client.awaiting query) query word := by
      have taken := supplied bytes response asked told query word
      rw [query_of_select_ok selected] at taken
      exact taken carries
    rcases answered with ⟨hint, position, next, ended, left⟩ | ⟨next, ended, left⟩
    · have next_eq : client.nextBackup query.chunk = some (hint, position) := next
      rw [ended, left, ← (nextBackup_of_some next_eq).1]
      exact .single (.refresh rfl next leaves)
    · rw [ended, left]
      dsimp only
      rw [if_pos (contains_spent ..)]
      exact .single (.exhaust rfl next leaves)
  · rw [ended, left]
    dsimp only
    rw [selects.contains_retired]
    exact .single (.discard rfl)
  · rw [ended, left]
    exact .nil

/-- A retrieval selects a hint and goes on, or changes nothing. -/
theorem path_retrieve {client : Client σ K} {index : Nat} {respond : Bytes → Reply Bytes}
    (supplied : (Operation.retrieve index respond).Supplied peer client) :
    Path peer client ((Operation.retrieve index respond).milestones client)
      (Client.retrieve index respond client).state := by
  by_cases selected : ∃ query, (Client.select index client).outcome = .ok query
  · obtain ⟨query, selected⟩ := selected
    have first : Path peer client [.selected query] (client.awaiting query) :=
      .single (.select (select_of_ok selected).1)
    have marks : (Operation.retrieve index respond).milestones client
        = [.selected query]
          ++ Milestone.ofRetrieval client query (Client.retrieve index respond client) := by
      rw [milestones, selected]
      rfl
    rw [marks]
    exact first.append (path_ofRetrieval supplied selected)
  · have never : ∀ query, (Client.select index client).outcome ≠ .ok query :=
      fun query selected' => selected ⟨query, selected'⟩
    have same : (Client.retrieve index respond client).state = client := by
      cases known : client.cached index with
      | some word => rw [retrieve_of_cached respond known]
      | none => exact (retrieve_of_select_not_ok respond known never).1
    rw [milestones_retrieve_of_select_not_ok never, same]
    exact .nil

/-- What a response has done is what its parities have done, or nothing if it is refused. -/
theorem milestones_processResponse (client : Client σ K) (response : Bytes) :
    (∃ query parities, client.pending = some query ∧ Words.decode response = .ok parities
      ∧ Client.processResponse response client = Client.recover query parities client
      ∧ (Operation.processResponse response).milestones client
        = Milestone.ofAnswer client query (Client.recover query parities client).outcome)
    ∨ ∃ cause, Client.processResponse response client = ⟨.error cause, client, []⟩
      ∧ (Operation.processResponse response).milestones client = [] := by
  rw [milestones]
  rcases processResponse_cases client response with
    ⟨query, parities, pending, decoded, eq⟩ | ⟨cause, -, notSpent, eq⟩
  · rw [pending, eq]
    exact .inl ⟨query, parities, rfl, decoded, rfl, rfl⟩
  · refine .inr ⟨cause, eq, ?_⟩
    rw [eq]
    cases client.pending with
    | none => rfl
    | some query =>
      exact Milestone.ofAnswer_eq_nil client query (fun word => by simp)
        fun chunk index spent => notSpent chunk index (Outcome.error.inj spent)

theorem path_processResponse {client : Client σ K} {response : Bytes}
    (supplied : client.Takes peer response) :
    Path peer client ((Operation.processResponse response).milestones client)
      (Client.processResponse response client).state := by
  rcases milestones_processResponse client response with
    ⟨query, parities, -, decoded, eq, marks⟩ | ⟨cause, eq, marks⟩
  · rw [marks, eq]
    exact path_recover fun word answered => supplied query word ⟨parities, decoded, answered⟩
  · rw [marks, eq]
    exact .nil

theorem path_discard (client : Client σ K) :
    Path peer client (Operation.discard.milestones client) (Client.discard client).state := by
  rw [milestones]
  cases pending : client.pending with
  | none =>
    rw [discard_of_idle pending]
    exact .nil
  | some query =>
    rw [discard_of_pending pending]
    exact .single (.discard pending)

/-- A build makes the tables afresh, or has only drawn from the source. -/
theorem path_rebuild {client : Client σ K} {stream : List Chunk}
    (supplied : (Client.rebuild stream client).outcome = .ok () → peer.sends stream) :
    Path peer client ((Operation.rebuild stream).milestones client)
      (Client.rebuild stream client).state := by
  rw [milestones]
  rcases rebuild_cases stream client with ⟨tables, built, ended, left⟩ | ⟨left, failed⟩
  · rw [ended, left]
    exact .single (.rebuild built (supplied ended))
  · rw [left]
    cases outcome : (Client.rebuild stream client).outcome with
    | ok done => exact absurd outcome failed
    | error cause => exact .single (.draw _)
    | fault cause => exact .single (.draw _)

/-- Every operation is a path with its milestones. -/
theorem path {client : Client σ K} {operation : Operation}
    (supplied : operation.Supplied peer client) :
    Path peer client (operation.milestones client) (operation.act client).state := by
  cases operation with
  | select index =>
    rw [act, Action.map_apply]
    exact path_select client index
  | randomQuery =>
    rw [act, Action.map_apply]
    exact path_randomQuery client
  | query index =>
    rw [act, Action.map_apply]
    exact path_query client index
  | randomQueryBytes =>
    rw [act, Action.map_apply, randomQueryBytes_state]
    exact path_randomQuery client
  | prepare query =>
    rw [act, Action.map_apply]
    exact .nil
  | recover query parities =>
    rw [act, Action.map_apply]
    exact path_recover supplied
  | processResponse response =>
    rw [act, Action.map_apply]
    exact path_processResponse supplied
  | retrieve index respond =>
    rw [act, Action.map_apply]
    exact path_retrieve supplied
  | discard =>
    rw [act, Action.map_apply]
    exact path_discard client
  | rebuild stream =>
    rw [act, Action.map_apply]
    exact path_rebuild supplied

end Operation

namespace Client

variable [RandomSource σ]

theorem throughout_any (client : Client σ K) (run : List Operation) :
    client.Throughout (fun found operation => operation.Supplied Peer.any found) run := by
  induction run generalizing client with
  | nil => trivial
  | cons operation rest ih => exact ⟨operation.supplied_any client, ih _⟩

/-- Every run is a path with the milestones of its history. -/
theorem path_after {client : Client σ K} {run : List Operation}
    (supplied : client.Throughout (fun found operation => operation.Supplied peer found) run) :
    Path peer client (client.history run) (client.after run) := by
  induction run generalizing client with
  | nil => exact .nil
  | cons operation rest ih => exact (Operation.path supplied.1).append (ih supplied.2)

/-- In particular one whose answers and streams are of any kind. -/
theorem path_any (client : Client σ K) (run : List Operation) :
    Path Peer.any client (client.history run) (client.after run) :=
  path_after (client.throughout_any run)

/-- The parameters of a session never change. -/
theorem params_after (client : Client σ K) (run : List Operation) :
    (client.after run).params = client.params :=
  (path_any client run).invariant (P := fun last => last.params = client.params)
    (fun change same => change.params_eq.trans same) rfl

end Client

end PrivateRetrieval
