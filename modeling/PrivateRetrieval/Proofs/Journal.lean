/-
What a session reports.

Of all that a session reports, three events tell of its hints: fresh ones were built,
and a hint was lost with an exhausted chunk or with a query that was given up.  They
tell the truth, and nothing else does:

* **`Operation.events_eq`** — a step reports what its transport reports, and then its own;
* **`Operation.marks_reports`**, **`Client.marks_log`** — of these the three events are those
  of its milestones, in order;
* **`countSince`** — a count over a record since its last reset; it can be taken from
  milestones or from events (`Client.losses_log`).
-/
import Mathlib.Data.List.DropRight
import PrivateRetrieval.Proofs.Consistency
import PrivateRetrieval.Proofs.Sampling

namespace PrivateRetrieval

variable {σ K α β ε : Type}

/-! ### Counting since a reset -/

/-- How many entries count in a record since the last one that resets it. -/
def countSince (resets counts : α → Bool) (record : List α) : Nat :=
  (record.rtakeWhile (fun entry => !resets entry)).countP counts

section Counting

variable {resets counts : α → Bool} {record : List α}

theorem countSince_concat (entry : α) :
    countSince resets counts (record ++ [entry])
      = if resets entry then 0
        else countSince resets counts record + if counts entry then 1 else 0 := by
  rw [countSince, List.rtakeWhile_concat]
  cases resets entry with
  | true => rfl
  | false =>
    rw [Bool.not_false, if_pos rfl, List.countP_append, List.countP_singleton]
    rfl

theorem countSince_filterMap {resets counts : β → Bool} (f : α → Option β) :
    countSince resets counts (record.filterMap f)
      = countSince (fun entry => (f entry).any resets) (fun entry => (f entry).any counts)
          record := by
  induction record using List.reverseRecOn with
  | nil => rfl
  | append_singleton record entry ih =>
    rw [List.filterMap_append, countSince_concat]
    cases image : f entry with
    | none =>
      rw [List.filterMap_cons_none image, List.filterMap_nil, List.append_nil, ih]
      rfl
    | some seen =>
      rw [List.filterMap_cons_some image, List.filterMap_nil, countSince_concat, ih]
      rfl

/-- Entries that neither reset a count nor take part in it may be left out. -/
theorem countSince_filter :
    countSince resets counts (record.filter fun entry => resets entry || counts entry)
      = countSince resets counts record := by
  rw [← List.filterMap_eq_filter, countSince_filterMap]
  congr 1
  · funext entry
    cases reset : resets entry <;> cases count : counts entry <;> simp [Option.guard, reset, count]
  · funext entry
    cases reset : resets entry <;> cases count : counts entry <;> simp [Option.guard, reset, count]

end Counting

/-! ### Events and milestones -/

namespace Event

/-- Fresh hints were built. -/
def isBuild : Event → Bool
  | hintsBuilt _ _ _ => true
  | _ => false

/-- A hint was lost. -/
def isLoss : Event → Bool
  | exhausted _ _ | discarded _ => true
  | _ => false

/-- The event tells of the hints of a session. -/
def isMark (event : Event) : Bool := event.isBuild || event.isLoss

theorem isBuild_iff (event : Event) :
    event.isBuild
      ↔ event.level = .debug ∧ event.message = "built hints from database snapshot" := by
  cases event <;> simp [isBuild, level, message]

theorem isLoss_iff (event : Event) :
    event.isLoss ↔ event.level = .warn
      ∧ (event.message = "backup hints exhausted, retired primary hint"
        ∨ event.message = "discarded pending query, retired its primary hint") := by
  cases event <;> simp [isLoss, level, message]

end Event

namespace Milestone

/-- All hints were built. -/
def isBuild : Milestone → Bool
  | built _ => true
  | _ => false

/-- A query for a word of the chunk was answered, and its hint replaced. -/
def isRecovery (chunk : Nat) : Milestone → Bool
  | refreshed query _ => query.chunk = chunk
  | _ => false

/-- A query was answered, and its hint retired for want of a backup hint. -/
def isExhaustion : Milestone → Bool
  | exhausted _ => true
  | _ => false

/-- A query was given up, and its hint retired. -/
def isDiscard : Milestone → Bool
  | discarded _ => true
  | _ => false

/-- Number of queries for words of a chunk that were answered, and their hints replaced, since
the last build. -/
def recoveries (chunk : Nat) (history : List Milestone) : Nat :=
  countSince isBuild (isRecovery chunk) history

/-- Number of hints that were retired for want of a backup hint since the last build. -/
def exhaustions (history : List Milestone) : Nat := countSince isBuild isExhaustion history

/-- Number of hints that were retired with a query that was given up since the last build. -/
def discards (history : List Milestone) : Nat := countSince isBuild isDiscard history

/-- The event that reports a milestone. -/
def report (p : Params) : Milestone → Option Event
  | built _ => some (.hintsBuilt p.primaryCount p.backupCount p.chunkCount)
  | exhausted query => some (.exhausted query.chunk query.index)
  | discarded query => some (.discarded query.index)
  | selected _ | refreshed _ _ => none

theorem report_ofSelection (p : Params) (outcome : Outcome Error Query) :
    (ofSelection outcome).filterMap (report p) = [] := by
  cases outcome <;> rfl

theorem isMark_report {p : Params} {mark : Milestone} {event : Event}
    (h : mark.report p = some event) : event.isMark := by
  cases mark <;> cases h <;> rfl

theorem marks_report (p : Params) (history : List Milestone) :
    (history.filterMap (report p)).filter Event.isMark = history.filterMap (report p) := by
  refine List.filter_eq_self.mpr fun event member => ?_
  obtain ⟨mark, -, eq⟩ := List.mem_filterMap.mp member
  exact isMark_report eq

theorem recoveries_concat (chunk : Nat) (history : List Milestone) (mark : Milestone) :
    recoveries chunk (history ++ [mark]) = match mark with
      | .built _ => 0
      | .refreshed query _ =>
        if chunk = query.chunk then recoveries chunk history + 1 else recoveries chunk history
      | _ => recoveries chunk history := by
  rw [recoveries, countSince_concat]
  cases mark with
  | refreshed query position =>
    by_cases own : chunk = query.chunk
    · simp [isBuild, isRecovery, own, recoveries]
    · simp [isBuild, isRecovery, own, Ne.symm own, recoveries]
  | _ => rfl

theorem losses_concat (history : List Milestone) (mark : Milestone) :
    discards (history ++ [mark]) + exhaustions (history ++ [mark]) = match mark with
      | .built _ => 0
      | .exhausted _ | .discarded _ => discards history + exhaustions history + 1
      | _ => discards history + exhaustions history := by
  rw [discards, exhaustions, countSince_concat, countSince_concat]
  cases mark with
  | exhausted query => exact (Nat.add_assoc _ _ 1).symm
  | discarded query => exact Nat.add_right_comm _ 1 _
  | _ => rfl

/-- Losses may be counted where they are reported. -/
theorem losses_report (p : Params) (history : List Milestone) :
    countSince Event.isBuild Event.isLoss (history.filterMap (report p))
      = discards history + exhaustions history := by
  rw [countSince_filterMap]
  induction history using List.reverseRecOn with
  | nil => rfl
  | append_singleton history mark ih =>
    rw [countSince_concat, losses_concat, ih]
    cases mark <;> rfl

end Milestone

/-- What an action reports that is followed by a reading of the state. -/
theorem Action.events_bind_read {γ : Type} (action : Action ε σ α) (f : α → σ → Outcome ε β)
    (g : α → β → γ) (state : σ) :
    ((action >>= fun found => read (f found) >>= fun value => Pure.pure (g found value))
      state).events = (action state).events := by
  cases outcome : (action state).outcome with
  | ok found => rw [bind_of_ok outcome, read_bind_pure, List.append_nil]
  | error cause => rw [bind_of_error outcome]
  | fault cause => rw [bind_of_fault outcome]

theorem Action.events_bind_of_not_ok {action : Action ε σ α} {next : α → Action ε σ β} {state : σ}
    (h : ∀ value, (action state).outcome ≠ .ok value) :
    ((action >>= next) state).events = (action state).events := by
  cases outcome : (action state).outcome with
  | ok value => exact absurd outcome (h value)
  | error cause => rw [bind_of_error outcome]
  | fault cause => rw [bind_of_fault outcome]

/-! ### Reports of the functions -/

namespace Client

open Milestone

variable {client : Client σ K} {query : Query}

theorem events_recover (client : Client σ K) (query : Query) (parities : List UInt64) :
    (recover query parities client).events
      = (ofAnswer client query (recover query parities client).outcome).filterMap
          (report client.params) := by
  cases answered : client.answer query parities with
  | ok word =>
    rw [recover_of_answer answered]
    cases client.nextBackup query.chunk <;> rfl
  | error cause =>
    rw [recover_of_error answered, ofAnswer_eq_nil client query (by simp)]
    · rfl
    · exact fun chunk index exhausted => answer_ne_exhausted parities chunk index
        (answered.trans exhausted)
  | fault cause => rw [recover_of_fault answered]; rfl

variable [Prf K]

/-- A selection reports at most that no hint passes through the index. -/
theorem marks_select (client : Client σ K) (index : Nat) :
    (select index client).events.filter Event.isMark = [] := by
  rcases select_step index client with ⟨query, -, -, eq⟩ | ⟨outcome, events, eq, -, -, quiet⟩
  · rw [eq]
    rfl
  · rw [eq, List.filter_eq_nil_iff]
    intro event member
    rw [quiet event member]
    exact Bool.false_ne_true

theorem marks_query (client : Client σ K) (index : Nat) :
    (Client.query index client).events.filter Event.isMark = [] := by
  rw [Client.query, Action.events_bind_read]
  exact marks_select client index

theorem marks_randomQuery [RandomSource σ] (client : Client σ K) :
    (randomQuery client).events.filter Event.isMark = [] := by
  cases pending : client.pending with
  | some query =>
    rw [randomQuery_of_pending pending]
    rfl
  | none =>
    by_cases room : client.cache.size < client.params.dbSize
    · rw [randomQuery_of_room pending room]
      split
      · exact marks_select _ _
      · rfl
    · rw [randomQuery_of_full pending (Nat.le_of_not_lt room)]
      rfl

theorem marks_randomQueryBytes [RandomSource σ] (client : Client σ K) :
    (randomQueryBytes client).events.filter Event.isMark = [] := by
  rw [randomQueryBytes, Action.events_bind_read]
  exact marks_randomQuery client

theorem events_rebuild [RandomSource σ] [KeySource σ K] (client : Client σ K)
    (stream : List Chunk) :
    (rebuild stream client).events
      = ((Operation.rebuild stream).milestones client).filterMap (report client.params) := by
  rw [Operation.milestones]
  unfold rebuild
  dsimp only
  cases Tables.absorbStream (K := K) client.params 0 stream
      (Tables.draw client.params client.source).1 with
  | ok tables => rfl
  | error cause => rfl
  | fault cause => rfl

theorem events_processResponse [RandomSource σ] [KeySource σ K] (client : Client σ K)
    (response : Bytes) :
    (processResponse response client).events
      = ((Operation.processResponse response).milestones client).filterMap
          (report client.params) := by
  rcases Operation.milestones_processResponse client response with
    ⟨query, parities, -, -, eq, marks⟩ | ⟨cause, eq, marks⟩
  · rw [marks, eq]
    exact events_recover client query parities
  · rw [marks, eq]
    rfl

theorem events_discard [RandomSource σ] [KeySource σ K] (client : Client σ K) :
    (discard client).events
      = (Operation.discard.milestones client).filterMap (report client.params) := by
  rw [Operation.milestones]
  cases pending : client.pending with
  | none =>
    rw [discard_of_idle pending]
    rfl
  | some query =>
    rw [discard_of_pending pending]
    rfl

/-- After the reports of the transport come those of how the query ended. -/
theorem events_guarded (selects : client.Selects query) (respond : Bytes → Reply Bytes)
    (bytes : Bytes) :
    let step := discardOnError (exchange respond bytes) (client.awaiting query)
    step.events = (respond bytes).events
      ++ (ofRetrieval client query step).filterMap (report client.params) := by
  intro step
  have eq : step = _ := guarded_exchange (client.pending_awaiting query) respond bytes
  rw [eq]
  cases (client.awaiting query).heard query (respond bytes) with
  | ok word =>
    cases (client.awaiting query).nextBackup query.chunk with
    | some found => exact (List.append_nil _).symm
    | none =>
      rw [ofRetrieval]
      dsimp only
      rw [if_pos (contains_spent ..)]
      rfl
  | error cause =>
    rw [ofRetrieval]
    dsimp only
    rw [selects.contains_retired]
    rfl
  | fault cause => exact (List.append_nil _).symm

end Client

/-! ### Reports of a session -/

namespace Operation

open Milestone

variable [Prf K]

/-- What the transport of an operation reports. It is asked only if there is a query. -/
def carried (client : Client σ K) : Operation → List Event
  | .retrieve index respond =>
    match (Client.query index client).outcome with
    | .ok bytes => (respond bytes).events
    | _ => []
  | _ => []

theorem carried_of_not_ok {client : Client σ K} {index : Nat} {respond : Bytes → Reply Bytes}
    (h : ∀ bytes, (Client.query index client).outcome ≠ .ok bytes) :
    (Operation.retrieve index respond).carried client = [] := by
  rw [carried]
  split
  · rename_i bytes asked
    exact absurd asked (h bytes)
  · rfl

/-- A retrieval without a query reports what the attempt to make one reports. -/
theorem marks_retrieve_of_query_not_ok {client : Client σ K} {index : Nat}
    (respond : Bytes → Reply Bytes)
    (h : ∀ bytes, (Client.query index client).outcome ≠ .ok bytes) :
    (Client.retrieve index respond client).events.filter Event.isMark = [] := by
  cases known : client.cached index with
  | some word =>
    rw [Client.retrieve_of_cached respond known]
    rfl
  | none =>
    rw [Client.retrieve_of_unknown respond known, Action.events_bind_of_not_ok h]
    exact Client.marks_query client index

variable [RandomSource σ] [KeySource σ K]

theorem events_retrieve (client : Client σ K) (index : Nat) (respond : Bytes → Reply Bytes) :
    ∃ own, (Client.retrieve index respond client).events
        = (Operation.retrieve index respond).carried client ++ own
      ∧ own.filter Event.isMark
        = ((Operation.retrieve index respond).milestones client).filterMap
            (report client.params) := by
  by_cases selected : ∃ query, (Client.select index client).outcome = .ok query
  · obtain ⟨query, selected⟩ := selected
    obtain ⟨selects, rfl, -⟩ := Client.select_of_ok selected
    rw [milestones, selected, carried]
    have queried := congrArg Step.outcome (Client.query_of_select_ok selected)
    cases prepared : (client.awaiting query).prepare query with
    | ok offsets =>
      rw [prepared] at queried
      have asked : (Client.query query.index client).outcome = .ok (encodeOffsets offsets) :=
        queried
      rw [Client.retrieve_of_query_ok respond selected asked, Client.events_guarded selects, asked]
      exact ⟨_, rfl, marks_report ..⟩
    | error cause => exact absurd prepared (Client.prepare_awaiting_ne_error selects cause)
    | fault cause =>
      rw [prepared] at queried
      have asked : (Client.query query.index client).outcome = .fault cause := queried
      have ended : (Client.retrieve query.index respond client).outcome = .fault cause := by
        rw [Client.retrieve_of_unknown respond selects.fresh, Action.bind_of_fault asked]
      unfold ofRetrieval
      rw [asked, ended]
      exact ⟨_, rfl, marks_retrieve_of_query_not_ok respond fun bytes => by simp [asked]⟩
  · have never : ∀ query, (Client.select index client).outcome ≠ .ok query := not_exists.mp selected
    have unasked := (Client.query_of_select_not_ok never).2
    rw [carried_of_not_ok unasked, milestones_retrieve_of_select_not_ok never]
    exact ⟨_, rfl, marks_retrieve_of_query_not_ok respond unasked⟩

theorem events_split (client : Client σ K) (operation : Operation) :
    ∃ own, (operation.act client).events = operation.carried client ++ own
      ∧ own.filter Event.isMark
        = (operation.milestones client).filterMap (report client.params) := by
  -- Only a retrieval has a transport, whose reports stand in front.
  cases operation with
  | retrieve index respond =>
    rw [act, Action.map_apply]
    exact events_retrieve client index respond
  | select index =>
    rw [act, Action.map_apply, milestones, report_ofSelection]
    exact ⟨_, rfl, Client.marks_select client index⟩
  | query index =>
    rw [act, Action.map_apply, milestones, report_ofSelection]
    exact ⟨_, rfl, Client.marks_query client index⟩
  | randomQuery =>
    rw [act, Action.map_apply, milestones, report_ofSelection]
    exact ⟨_, rfl, Client.marks_randomQuery client⟩
  | randomQueryBytes =>
    rw [act, Action.map_apply, milestones, report_ofSelection]
    exact ⟨_, rfl, Client.marks_randomQueryBytes client⟩
  | prepare handle =>
    rw [act, Action.map_apply]
    exact ⟨[], rfl, rfl⟩
  | recover handle parities =>
    rw [act, Action.map_apply, milestones]
    refine ⟨_, rfl, ?_⟩
    exact (congrArg _ (Client.events_recover client handle parities)).trans (marks_report ..)
  | processResponse response =>
    rw [act, Action.map_apply]
    exact ⟨_, rfl, (congrArg _ (Client.events_processResponse client response)).trans
      (marks_report ..)⟩
  | discard =>
    rw [act, Action.map_apply]
    exact ⟨_, rfl, (congrArg _ (Client.events_discard client)).trans (marks_report ..)⟩
  | rebuild stream =>
    rw [act, Action.map_apply]
    refine ⟨_, rfl, ?_⟩
    exact (congrArg _ (Client.events_rebuild client stream)).trans (marks_report ..)

/-- What an operation reports itself, after what its transport reports. -/
def reports (client : Client σ K) (operation : Operation) : List Event :=
  (operation.act client).events.drop (operation.carried client).length

/-- A step reports what its transport reports, and then its own. -/
theorem events_eq (client : Client σ K) (operation : Operation) :
    (operation.act client).events = operation.carried client ++ operation.reports client := by
  obtain ⟨own, eq, -⟩ := operation.events_split client
  rw [reports, eq, List.drop_left]

/-- What it reports of the hints on its own is what has happened to them. -/
theorem marks_reports (client : Client σ K) (operation : Operation) :
    (operation.reports client).filter Event.isMark
      = (operation.milestones client).filterMap (report client.params) := by
  obtain ⟨own, eq, marks⟩ := operation.events_split client
  rw [reports, eq, List.drop_left, marks]

end Operation

namespace Client

open Milestone

variable [Prf K] [RandomSource σ] [KeySource σ K]

/-- What a session reports itself during a run. -/
def log (client : Client σ K) : (run : List Operation) → List Event
  | [] => []
  | operation :: rest => operation.reports client ++ (operation.act client).state.log rest

theorem marks_log (client : Client σ K) (run : List Operation) :
    (client.log run).filter Event.isMark
      = (client.history run).filterMap (report client.params) := by
  induction run generalizing client with
  | nil => rfl
  | cons operation rest ih =>
    have params : (operation.act client).state.params = client.params :=
      params_after client [operation]
    rw [log, history, List.filter_append, List.filterMap_append, operation.marks_reports, ih,
      params]

/-- The log of a session from its start on: the hints that it reports as lost since it last
reported that hints were built are those that were. -/
theorem losses_log {p : Params} {source : σ} {stream : List Chunk}
    (ready : (setup (K := K) p source stream).outcome = .ok ()) (run : List Operation) :
    let start := setup (K := K) p source stream
    let history := .built stream :: start.state.history run
    countSince Event.isBuild Event.isLoss (start.events ++ start.state.log run)
      = discards history + exhaustions history := by
  intro start history
  have events : start.events = [Milestone.built stream].filterMap (report p) := by
    have reported := events_rebuild ({ params := p, source } : Client σ K) stream
    rw [Operation.milestones] at reported
    have ready : (rebuild stream ({ params := p, source } : Client σ K)).outcome = .ok () := ready
    rwa [ready] at reported
  have marks : (start.events ++ start.state.log run).filter Event.isMark
      = history.filterMap (report p) := by
    rw [List.filter_append, marks_log, events, marks_report, setup_params ready,
      ← List.filterMap_append]
    rfl
  calc
    _ = countSince Event.isBuild Event.isLoss (history.filterMap (report p)) := by
      rw [← marks]
      exact countSince_filter.symm
    _ = _ := losses_report p history

end Client

end PrivateRetrieval
