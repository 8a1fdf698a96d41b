/-
What a failed operation leaves.

Errors come at different depths: before anything is done, after a hint has been
selected, after a word has been kept, after all keys have been drawn.  They leave
everything as it was all the same, but for three cases:

* **`Client.Framed`** — a miss has moved the source by the draws that led to it; an
  exhausted chunk has cost the query and its hint, and its word is kept; a refused
  stream has moved the source past all keys of a build;
* **`Client.failures_framed`** — so it is in every state that can be reached.
-/
import PrivateRetrieval.Proofs.Delivery
import PrivateRetrieval.Proofs.Sampling

namespace PrivateRetrieval

variable {σ K : Type} [Prf K]

namespace Operation

/-- Operations that draw nothing from the source and hand nothing to a transport. -/
def Plain : Operation → Prop
  | .select _ | .query _ | .prepare _ | .recover _ _ | .processResponse _ => True
  | _ => False

/-- Operations for a random index. -/
def Random : Operation → Prop
  | .randomQuery | .randomQueryBytes => True
  | _ => False

end Operation

namespace Client

/-- What operations leave of a client when they end with an error. -/
structure Framed [KeySource σ K] [RandomSource σ] (client : Client σ K) : Prop where
  /-- Nothing has changed, unless the error is for want of a backup hint. -/
  unchanged : ∀ {operation : Operation} {cause : Error}, operation.Plain →
    (operation.act client).outcome = .error cause →
    (∀ chunk index, cause ≠ .backupsExhausted chunk index) →
    (operation.act client).state = client
  /-- The source has been drawn from just if the error is a miss: up to the first index
  that is not known, which is the one that is missed. -/
  random : ∀ {operation : Operation} {cause : Error}, operation.Random →
    (operation.act client).outcome = .error cause →
    (cause = .queryPending ∨ cause = .allCached) ∧ (operation.act client).state = client
    ∨ ∃ rejected index, cause = .hintMiss index
      ∧ client.cache.FirstNew client.params.dbSize client.source rejected index
      ∧ (operation.act client).state
        = { client with source := skipDraws client.params.dbSize (rejected + 1) client.source }
  /-- For want of a backup hint the query is gone, its word is kept and its slot is empty. -/
  exhausted : ∀ {operation : Operation} {chunk index : Nat}, operation.Answering →
    (operation.act client).outcome = .error (.backupsExhausted chunk index) →
    ∃ query parities word, operation.Brings client query parities
      ∧ client.Leaves query parities word ∧ query.chunk = chunk ∧ query.index = index
      ∧ (operation.act client).state
        = { client with
            pending := none
            cache := client.cache.insert index word
            tables := { client.tables with
              primary := client.tables.primary.set query.slot none } }
  /-- The source is past all keys of a build, wherever the stream went wrong. -/
  rebuild : ∀ {stream : List Chunk} {cause : Error},
    (rebuild stream client).outcome = .error cause →
    (rebuild stream client).state
      = { client with
          source := skipKeys K (client.params.primaryCount
            + client.params.backupsPerChunk * client.params.chunkCount) client.source }

variable {client : Client σ K} {query : Query} {parities : List UInt64}

/-! ### One operation at a time -/

theorem select_error {index : Nat} {cause : Error}
    (h : (select index client).outcome = .error cause) :
    (select index client).state = client := by
  rcases select_cases index client with ⟨query, -, -, eq⟩ | ⟨same, -⟩
  · rw [eq] at h
    exact absurd h (by simp)
  · exact same

/-- A query whose hint has been selected is prepared without an error. -/
theorem query_error {index : Nat} {cause : Error}
    (h : (Client.query index client).outcome = .error cause) :
    (Client.query index client).state = client := by
  by_cases selected : ∃ query, (select index client).outcome = .ok query
  · obtain ⟨query, selected⟩ := selected
    rw [query_of_select_ok selected] at h
    have failed := Outcome.map_eq_error h
    exact absurd failed (prepare_awaiting_ne_error (select_of_ok selected).1 cause)
  · exact (query_of_select_not_ok (not_exists.mp selected)).1

omit [Prf K] in
theorem recover_error {cause : Error}
    (h : (recover query parities client).outcome = .error cause)
    (left : ∀ chunk index, cause ≠ .backupsExhausted chunk index) :
    (recover query parities client).state = client := by
  rcases recover_cases client query parities with ⟨word, answered⟩ | ⟨same, -⟩
  · rcases answered_of_answer answered with ⟨hint, position, -, ended, -⟩ | ⟨-, ended, -⟩
    · exact absurd (ended.symm.trans h) (by simp)
    · exact absurd (Outcome.error.inj (h.symm.trans ended)) (left _ _)
  · exact same

omit [Prf K] in
theorem processResponse_error {response : Bytes} {cause : Error}
    (h : (processResponse response client).outcome = .error cause)
    (left : ∀ chunk index, cause ≠ .backupsExhausted chunk index) :
    (processResponse response client).state = client := by
  rcases processResponse_cases client response with ⟨query, parities, -, -, eq⟩ | ⟨other, -, -, eq⟩
  · rw [eq] at h ⊢
    exact recover_error h left
  · rw [eq]

variable [KeySource σ K] [RandomSource σ]

theorem unchanged_of_error {operation : Operation} {cause : Error} (plain : operation.Plain)
    (h : (operation.act client).outcome = .error cause)
    (left : ∀ chunk index, cause ≠ .backupsExhausted chunk index) :
    (operation.act client).state = client := by
  cases operation with
  | select index =>
    rw [Operation.act, Action.map_apply] at h ⊢
    exact select_error (Outcome.map_eq_error h)
  | query index =>
    rw [Operation.act, Action.map_apply] at h ⊢
    exact query_error (Outcome.map_eq_error h)
  | prepare handle =>
    rw [Operation.act, Action.map_apply]
    rfl
  | recover handle parities =>
    rw [Operation.act, Action.map_apply] at h ⊢
    exact recover_error (Outcome.map_eq_error h) left
  | processResponse response =>
    rw [Operation.act, Action.map_apply] at h ⊢
    exact processResponse_error (Outcome.map_eq_error h) left
  | _ => exact plain.elim

/-- A random query is refused at once, or is missed by the index that its draws end with. -/
theorem Consistent.random_error (consistent : client.Consistent) {operation : Operation}
    {cause : Error} (random : operation.Random)
    (h : (operation.act client).outcome = .error cause) :
    (cause = .queryPending ∨ cause = .allCached) ∧ (operation.act client).state = client
    ∨ ∃ rejected index, cause = .hintMiss index
      ∧ client.cache.FirstNew client.params.dbSize client.source rejected index
      ∧ (operation.act client).state = { client with
          source := skipDraws client.params.dbSize (rejected + 1) client.source } := by
  have failed : (randomQuery client).outcome = .error cause
      ∧ (operation.act client).state = (randomQuery client).state := by
    cases operation with
    | randomQuery =>
      rw [Operation.act, Action.map_apply] at h ⊢
      exact ⟨Outcome.map_eq_error h, rfl⟩
    | randomQueryBytes =>
      rw [Operation.act, Action.map_apply] at h ⊢
      exact ⟨randomQuery_error_of_bytes (Outcome.map_eq_error h), randomQueryBytes_state client⟩
    | _ => exact random.elim
  rw [failed.2]
  rcases randomQuery_error consistent.valid failed.1 with
    same | ⟨rejected, index, firstNew, missed, moved⟩
  · exact .inl same
  · exact .inr ⟨rejected, index, missed, firstNew, moved⟩

theorem Consistent.framed (consistent : client.Consistent) : client.Framed where
  unchanged := unchanged_of_error
  random := consistent.random_error
  exhausted answering h := by
    obtain ⟨query, parities, word, brings, -, leaves, rfl, rfl, left⟩ :=
      consistent.exhausted answering h
    exact ⟨query, parities, word, brings, leaves, rfl, rfl, left⟩
  rebuild {stream cause} h := by
    rcases rebuild_cases stream client with ⟨tables, -, ended, -⟩ | ⟨left, -⟩
    · exact absurd (ended.symm.trans h) (by simp)
    · exact left

/-- **Failures are framed.**  Whatever is asked of a session and whatever the server
answers, an operation that fails leaves all of the state as it found it, with the
exceptions that are named. -/
theorem failures_framed {size : Nat} {p : Params} (derived : p.Derived size) {source : σ}
    {stream : List Chunk} (ready : (setup (K := K) p source stream).outcome = .ok ())
    (run : List Operation) :
    let last := (setup (K := K) p source stream).state.after run
    last.params = p ∧ last.Framed :=
  ⟨(params_after _ run).trans (setup_params ready),
    (consistent_after (consistent_setup derived.valid ready) run).framed⟩

/-- The only backup hint of the first chunk is gone when index 1 is answered: the word that
the answer leaves is kept, and slot 1 is empty. -/
theorem failures_framed_of_exhausted_chunk :
    let last := Small.client.after [.select 0, .recover ⟨0, 0, 0⟩ [0, 0], .select 1]
    let step := (Operation.recover ⟨1, 0, 1⟩ [0, 0]).act last
    step.outcome = .error (.backupsExhausted 0 1) ∧ step.state
      = { last with
          pending := none
          cache := last.cache.insert 1 60
          tables := { last.tables with primary := last.tables.primary.set 1 none } } := by
  intro last step
  have answering : (Operation.recover ⟨1, 0, 1⟩ [0, 0]).Answering := trivial
  have ended : step.outcome = .error (.backupsExhausted 0 1) := by decide
  have kept : step.state.cached 1 = some 60 := by decide
  obtain ⟨-, (framed : last.Framed)⟩ := failures_framed Small.derived Small.setup_ok
    [.select 0, .recover ⟨0, 0, 0⟩ [0, 0], .select 1]
  obtain ⟨query, parities, word, ⟨-, rfl, -⟩, -, -, -, left⟩ := framed.exhausted answering ended
  have inserted : step.state.cached 1 = some word :=
    (congrArg (cached · 1) left).trans ((Cache.get?_insert ..).trans (if_pos rfl))
  obtain rfl : word = 60 := Option.some.inj (inserted.symm.trans kept)
  exact ⟨ended, left⟩

end Client

end PrivateRetrieval
