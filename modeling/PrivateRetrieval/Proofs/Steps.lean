/-
What each step of a client can do.

One statement for every function of a client, with its guards, its outcome and
the state it leaves.  Later files cite these and do not open the functions:

* **`Client.select_step`**, **`Client.randomQuery_cases`** — a hint is selected, or
  nothing changes but the source;
* **`Client.recover_of_answer`** — an answer is kept, and its slot takes a backup
  hint (`Client.refreshed`) or stays empty (`Client.spent`);
* **`Client.processResponse_cases`**, **`Client.guarded_exchange`**,
  **`Client.retrieve_of_select_ok`** — the composed steps come down to these;
* **`Client.rebuild_cases`** — both tables are built afresh, or only the source
  has moved.
-/
import PrivateRetrieval.Proofs.Offline
import PrivateRetrieval.Proofs.Session

namespace PrivateRetrieval

variable {ε σ K α β : Type}

theorem Outcome.id_map (outcome : Outcome ε α) : id <$> outcome = outcome := by
  cases outcome with
  | ok value => rfl
  | error cause => rfl
  | fault cause => rfl

theorem Outcome.map_eq_ok {f : α → β} {outcome : Outcome ε α} {value : β}
    (h : f <$> outcome = .ok value) : ∃ seen, outcome = .ok seen ∧ f seen = value := by
  cases outcome with
  | ok seen => exact ⟨seen, rfl, ok.inj h⟩
  | error cause => exact absurd h (by rintro ⟨⟩)
  | fault cause => exact absurd h (by rintro ⟨⟩)

theorem Outcome.map_eq_error {f : α → β} {outcome : Outcome ε α} {cause : ε}
    (h : f <$> outcome = .error cause) : outcome = .error cause := by
  cases outcome with
  | ok seen => exact absurd h (by rintro ⟨⟩)
  | error other => exact congrArg error (error.inj h)
  | fault other => exact absurd h (by rintro ⟨⟩)

theorem Words.undecodable_of_error {response : Bytes} {cause : Error}
    (h : decode response = .error cause) : ∃ why, cause = .undecodable why := by
  unfold decode at h
  dsimp only at h
  split at h
  · exact ⟨_, (Except.error.inj h).symm⟩
  · split at h
    · exact ⟨_, (Except.error.inj h).symm⟩
    · exact absurd h (by simp)

namespace Action

theorem map_apply (f : α → β) (action : Action ε σ α) (state : σ) :
    (f <$> action) state
      = ⟨f <$> (action state).outcome, (action state).state, (action state).events⟩ := by
  show bind action (pure ∘ f) state = _
  rw [bind]
  cases (action state).outcome with
  | ok value => simp only [Function.comp_apply, pure, List.append_nil]; rfl
  | error cause => rfl
  | fault cause => rfl

theorem attempt_state (action : Action ε σ α) (state : σ) :
    (action.attempt state).state = (action state).state := by
  rw [attempt]
  cases (action state).outcome <;> rfl

theorem bind_pure_apply (f : α → β) (action : Action ε σ α) (state : σ) :
    (action >>= fun value => Pure.pure (f value)) state
      = ⟨f <$> (action state).outcome, (action state).state, (action state).events⟩ :=
  map_apply f action state

theorem bind_assoc {γ : Type} (action : Action ε σ α) (next : α → Action ε σ β)
    (last : β → Action ε σ γ) (state : σ) :
    (action >>= next >>= last) state = (action >>= fun value => next value >>= last) state := by
  show bind (bind action next) last state = bind action (fun value => bind (next value) last) state
  simp only [bind]
  cases (action state).outcome with
  | error cause => rfl
  | fault cause => rfl
  | ok value =>
    dsimp only
    cases (next value (action state).state).outcome with
    | error cause => rfl
    | fault cause => rfl
    | ok later => exact congrArg (Step.mk _ _) (List.append_assoc ..)

/-- Two steps that yield a value have both done so. -/
theorem ok_of_bind_ok {action : Action ε σ α} {next : α → Action ε σ β} {state : σ} {value : β}
    (h : ((action >>= next) state).outcome = .ok value) :
    ∃ first, (action state).outcome = .ok first := by
  cases outcome : (action state).outcome with
  | ok first => exact ⟨first, rfl⟩
  | error cause =>
    rw [bind_of_error outcome] at h
    exact absurd h (by simp)
  | fault cause =>
    rw [bind_of_fault outcome] at h
    exact absurd h (by simp)

/-- What is done next depends on the first step in this state alone. -/
theorem bind_congr_left {action action' : Action ε σ α} {state : σ}
    (same : action state = action' state) (next : α → Action ε σ β) :
    (action >>= next) state = (action' >>= next) state := by
  show bind action next state = bind action' next state
  rw [bind, bind, same]

theorem attempt_of_ok {action : Action ε σ α} {state : σ} {value : α}
    (h : (action state).outcome = .ok value) :
    action.attempt state = ⟨.ok (.ok value), (action state).state, (action state).events⟩ := by
  simp only [attempt, h]

theorem attempt_of_error {action : Action ε σ α} {state : σ} {cause : ε}
    (h : (action state).outcome = .error cause) :
    action.attempt state
      = ⟨.ok (.error cause), (action state).state, (action state).events⟩ := by
  simp only [attempt, h]

theorem attempt_of_fault {action : Action ε σ α} {state : σ} {cause : Fault}
    (h : (action state).outcome = .fault cause) :
    action.attempt state = ⟨.fault cause, (action state).state, (action state).events⟩ := by
  simp only [attempt, h]

theorem read_bind_pure (f : σ → Outcome ε α) (g : α → β) (state : σ) :
    (read f >>= fun value => Pure.pure (g value)) state = ⟨g <$> f state, state, []⟩ :=
  bind_pure_apply g (read f) state

theorem read_bind (f : σ → Outcome ε α) (next : α → Action ε σ β) (state : σ) :
    (read f >>= next) state = match f state with
      | .ok value => next value state
      | .error cause => ⟨.error cause, state, []⟩
      | .fault cause => ⟨.fault cause, state, []⟩ := by
  show bind (read f) next state = _
  rw [bind, read]
  cases f state with
  | ok value => rfl
  | error cause => rfl
  | fault cause => rfl

theorem done_bind (outcome : Outcome ε α) (next : α → Action ε σ β) (state : σ) :
    (done outcome >>= next) state = match outcome with
      | .ok value => next value state
      | .error cause => ⟨.error cause, state, []⟩
      | .fault cause => ⟨.fault cause, state, []⟩ :=
  read_bind (fun _ => outcome) next state

theorem update_bind (f : σ → σ) (next : Unit → Action ε σ β) (state : σ) :
    (update f >>= next) state = next () (f state) := rfl

theorem done_ok_bind (value : α) (next : α → Action ε σ β) (state : σ) :
    (done (.ok value) >>= next) state = next value state :=
  done_bind (.ok value) next state

end Action

namespace Client

variable {client : Client σ K} {query : Query} {word : UInt64}

/-! ### Selection -/

section Selection

variable [Prf K]

/-- What it takes to select a hint for a query. -/
structure Selects (client : Client σ K) (query : Query) : Prop where
  idle : client.pending = none
  inRange : query.index < client.params.dbSize
  fresh : client.cached query.index = none
  chunk : query.chunk = client.params.chunkOf query.index
  hit : client.tables.firstThrough query.index query.chunk client.params.chunkSize
    = some query.slot

/-- A client whose query waits for an answer. -/
def awaiting (client : Client σ K) (query : Query) : Client σ K :=
  { client with pending := some query }

omit [Prf K] in
theorem pending_awaiting (client : Client σ K) (query : Query) :
    (client.awaiting query).pending = some query := rfl

/-- A selection makes a query, or refuses and changes nothing. -/
theorem select_step (index : Nat) (client : Client σ K) :
    (∃ query, client.Selects query ∧ query.index = index
      ∧ select index client = ⟨.ok query, client.awaiting query, []⟩)
    ∨ ∃ outcome events, select index client = ⟨outcome, client, events⟩
      ∧ (∀ query, outcome ≠ .ok query)
      ∧ (∀ chunk index', outcome ≠ .error (.backupsExhausted chunk index'))
      ∧ ∀ event ∈ events, event = .uncovered index (client.params.chunkOf index) := by
  unfold select
  dsimp only
  -- The guards stand in the order of the checks. Whatever passes all of them looks for a hint.
  by_cases busy : client.pending.isSome = true
  · rw [if_pos busy]
    exact .inr ⟨_, _, rfl, by simp⟩
  rw [if_neg busy]
  by_cases past : client.params.dbSize ≤ index
  · rw [if_pos past]
    exact .inr ⟨_, _, rfl, by simp⟩
  rw [if_neg past]
  by_cases known : client.cache.contains index = true
  · rw [if_pos known]
    exact .inr ⟨_, _, rfl, by simp⟩
  rw [if_neg known]
  by_cases noWords : client.params.chunkSize = 0
  · rw [if_pos noWords]
    exact .inr ⟨_, _, rfl, by simp⟩
  rw [if_neg noWords]
  cases hit : client.tables.firstThrough index (client.params.chunkOf index)
      client.params.chunkSize with
  | none => exact .inr ⟨_, _, rfl, by simp⟩
  | some slot =>
    refine .inl ⟨⟨index, client.params.chunkOf index, slot⟩, ?_, rfl, rfl⟩
    exact ⟨by simpa using busy, by simpa using past,
      by simpa [cached, Cache.contains] using known, rfl, hit⟩

theorem select_cases (index : Nat) (client : Client σ K) :
    (∃ query, client.Selects query ∧ query.index = index
      ∧ select index client = ⟨.ok query, client.awaiting query, []⟩)
    ∨ ((select index client).state = client
      ∧ ∀ query, (select index client).outcome ≠ .ok query) := by
  rcases select_step index client with selected | ⟨outcome, events, eq, refused, -, -⟩
  · exact .inl selected
  · rw [eq]
    exact .inr ⟨rfl, refused⟩

theorem select_ne_exhausted (index : Nat) (client : Client σ K) (chunk index' : Nat) :
    (select index client).outcome ≠ .error (.backupsExhausted chunk index') := by
  rcases select_step index client with ⟨query, -, -, eq⟩ | ⟨outcome, events, eq, -, notSpent, -⟩
  · rw [eq]
    simp
  · rw [eq]
    exact notSpent chunk index'

theorem select_of_ok {index : Nat} (h : (select index client).outcome = .ok query) :
    client.Selects query ∧ query.index = index
      ∧ select index client = ⟨.ok query, client.awaiting query, []⟩ := by
  rcases select_cases index client with ⟨found, selects, index_eq, eq⟩ | ⟨_, never⟩
  · rw [eq] at h
    cases h
    exact ⟨selects, index_eq, eq⟩
  · exact absurd h (never query)

theorem select_of_pending (pending : client.pending = some query) (index : Nat) :
    select index client = ⟨.error .queryPending, client, []⟩ := by
  rw [select, pending]
  rfl

theorem select_of_past {index : Nat} (idle : client.pending = none)
    (past : client.params.dbSize ≤ index) :
    select index client
      = ⟨.error (.indexOutOfRange index client.params.dbSize), client, []⟩ := by
  rw [select, idle]
  exact if_pos past

theorem select_of_known {index : Nat} {word : UInt64} (idle : client.pending = none)
    (inRange : index < client.params.dbSize) (known : client.cached index = some word) :
    select index client = ⟨.error (.alreadyCached index), client, []⟩ := by
  have kept : client.cache.contains index = true := by
    rw [Cache.contains, ← cached, known, Option.isSome_some]
  unfold select
  dsimp only
  rw [if_neg (by rw [idle]; simp), if_neg (by omega), if_pos kept]

/-- All that is left to ask of an index that may be selected is whether a hint passes
through it. -/
theorem select_of_unknown {index : Nat} (idle : client.pending = none)
    (inRange : index < client.params.dbSize) (fresh : client.cached index = none)
    (pos : 0 < client.params.chunkSize) :
    select index client
      = match client.tables.firstThrough index (client.params.chunkOf index)
          client.params.chunkSize with
        | some slot =>
          ⟨.ok ⟨index, client.params.chunkOf index, slot⟩,
            client.awaiting ⟨index, client.params.chunkOf index, slot⟩, []⟩
        | none =>
          ⟨.error (.hintMiss index), client, [.uncovered index (client.params.chunkOf index)]⟩ := by
  have unknown : client.cache.contains index = false := by
    rw [Cache.contains, ← cached, fresh, Option.isSome_none]
  unfold select
  dsimp only
  rw [if_neg (by rw [idle]; simp), if_neg (by omega), if_neg (by rw [unknown]; simp),
    if_neg (by omega)]
  rfl

theorem Selects.held (selects : client.Selects query) :
    ∃ hint, client.tables.hint? query.slot = some hint
      ∧ hint.elementAt query.chunk client.params.chunkSize = query.index :=
  (Tables.firstThrough_eq_some_iff.mp selects.hit).1

theorem randomQuery_cases [RandomSource σ] (client : Client σ K) :
    ∃ source, (∃ query, Selects { client with source } query
        ∧ randomQuery client = ⟨.ok query, awaiting { client with source } query, []⟩)
      ∨ ((randomQuery client).state = { client with source }
        ∧ ∀ query, (randomQuery client).outcome ≠ .ok query) := by
  unfold randomQuery
  dsimp only
  by_cases busy : client.pending.isSome = true
  · rw [if_pos busy]
    exact ⟨client.source, .inr ⟨rfl, fun _ => by simp⟩⟩
  rw [if_neg busy]
  by_cases all : client.params.dbSize ≤ client.cache.size
  · rw [if_pos all]
    exact ⟨client.source, .inr ⟨rfl, fun _ => by simp⟩⟩
  rw [if_neg all]
  -- From here on the source has been drawn from, whether or not a hint is found.
  refine ⟨(drawUncached client.cache client.params.dbSize drawLimit client.source).2, ?_⟩
  cases drawn : (drawUncached client.cache client.params.dbSize drawLimit client.source).1 with
  | none => exact .inr ⟨rfl, fun _ => by simp⟩
  | some index =>
    rcases select_cases index { client with
        source := (drawUncached client.cache client.params.dbSize drawLimit client.source).2 }
      with ⟨query, selects, _, eq⟩ | ⟨same, never⟩
    · exact .inl ⟨query, selects, eq⟩
    · exact .inr ⟨same, never⟩

end Selection

/-! ### Queries -/

theorem pendingHint_of_pending (pending : client.pending = some query) {hint : Hint K}
    (held : client.tables.hint? query.slot = some hint) :
    client.pendingHint query = .ok hint := by
  rw [pendingHint, if_neg (fun differs => differs pending), held]

theorem pendingHint_of_ok {hint : Hint K} (h : client.pendingHint query = .ok hint) :
    client.pending = some query ∧ client.tables.hint? query.slot = some hint := by
  unfold pendingHint at h
  split at h
  · exact absurd h (by simp)
  rename_i pending
  split at h
  · rename_i held
    cases h
    exact ⟨Decidable.not_not.mp pending, held⟩
  · exact absurd h (by simp)

theorem pendingHint_of_ne (other : client.pending ≠ some query) :
    client.pendingHint query = .error .noPendingQuery := by
  rw [pendingHint, if_pos other]

variable [Prf K]

theorem prepare_of_pending (pending : client.pending = some query) {hint : Hint K}
    (held : client.tables.hint? query.slot = some hint) (pos : 0 < client.params.chunkSize)
    (within : query.chunk < client.params.chunkCount) :
    client.prepare query
      = .ok ((hint.trace client.params.chunkCount client.params.chunkSize).eraseIdx
          query.chunk) := by
  rw [prepare, pendingHint_of_pending pending held]
  simp only [Outcome.bind, Hint.trace?_eq_some hint _ pos, Hint.length_trace, if_pos within]

theorem prepare_of_ne (other : client.pending ≠ some query) :
    client.prepare query = .error .noPendingQuery := by
  rw [prepare, pendingHint_of_ne other]
  rfl

theorem prepare_awaiting_ne_error (selects : client.Selects query) (cause : Error) :
    (client.awaiting query).prepare query ≠ .error cause := by
  obtain ⟨hint, held, -⟩ := selects.held
  rw [prepare, pendingHint_of_pending (client.pending_awaiting query) held]
  simp only [Outcome.bind]
  split
  · simp
  · split <;> simp

theorem query_of_select_ok {index : Nat} (h : (select index client).outcome = .ok query) :
    Client.query index client
      = ⟨encodeOffsets <$> (client.awaiting query).prepare query, client.awaiting query, []⟩ := by
  obtain ⟨-, -, eq⟩ := select_of_ok h
  rw [Client.query, Action.bind_of_ok h, eq, Action.read_bind_pure]
  rfl

theorem query_of_select_not_ok {index : Nat}
    (h : ∀ query, (select index client).outcome ≠ .ok query) :
    (Client.query index client).state = client
      ∧ ∀ bytes, (Client.query index client).outcome ≠ .ok bytes := by
  have same : (select index client).state = client := by
    rcases select_cases index client with ⟨found, -, -, eq⟩ | ⟨same, -⟩
    · exact absurd (by rw [eq]) (h found)
    · exact same
  rw [Client.query]
  cases outcome : (select index client).outcome with
  | ok found => exact absurd outcome (h found)
  | error cause =>
    rw [Action.bind_of_error outcome]
    exact ⟨same, fun bytes => by simp⟩
  | fault cause =>
    rw [Action.bind_of_fault outcome]
    exact ⟨same, fun bytes => by simp⟩

theorem select_of_query_ok {index : Nat} {bytes : Bytes}
    (asked : (Client.query index client).outcome = .ok bytes) :
    ∃ query, (select index client).outcome = .ok query :=
  Action.ok_of_bind_ok asked

theorem query_ne_exhausted (index : Nat) (client : Client σ K) (chunk index' : Nat) :
    (Client.query index client).outcome ≠ .error (.backupsExhausted chunk index') := by
  cases selected : (select index client).outcome with
  | ok query =>
    obtain ⟨selects, -, -⟩ := select_of_ok selected
    rw [query_of_select_ok selected]
    cases prepared : (client.awaiting query).prepare query with
    | ok offsets => rintro ⟨⟩
    | error cause => exact absurd prepared (prepare_awaiting_ne_error selects cause)
    | fault cause => rintro ⟨⟩
  | error cause =>
    rw [Client.query, Action.bind_of_error selected]
    intro exhausted
    obtain rfl : cause = _ := Outcome.error.inj exhausted
    exact select_ne_exhausted index client chunk index' selected
  | fault cause =>
    rw [Client.query, Action.bind_of_fault selected]
    simp

theorem randomQueryBytes_state [RandomSource σ] (client : Client σ K) :
    (randomQueryBytes client).state = (randomQuery client).state := by
  rw [randomQueryBytes]
  cases outcome : (randomQuery client).outcome with
  | ok found => rw [Action.bind_of_ok outcome, Action.read_bind_pure]
  | error cause => rw [Action.bind_of_error outcome]
  | fault cause => rw [Action.bind_of_fault outcome]

/-! ### Answers -/

/-- A client that keeps the word of its query, which is pending no more. -/
def settled (client : Client σ K) (query : Query) (word : UInt64) : Client σ K :=
  { client with pending := none, cache := client.cache.insert query.index word }

/-- After an answer the slot of the query holds a backup hint of its chunk,
programmed at the index. -/
def refreshed (client : Client σ K) (query : Query) (word : UInt64) (hint : Hint K)
    (position : Nat) : Client σ K :=
  { client.settled query word with
    tables := (client.tables.takeBackup query.chunk position).install query.slot
      ((hint.program query.index).xorParity word)
    consumed := client.consumed.modify query.chunk (· + 1) }

/-- After an answer for which no backup hint was left the slot is empty. -/
def spent (client : Client σ K) (query : Query) (word : UInt64) : Client σ K :=
  { client.settled query word with tables := client.tables.retire query.slot }

omit [Prf K] in
theorem pending_spent (client : Client σ K) (query : Query) (word : UInt64) :
    (client.spent query word).pending = none := rfl

/-- A client that has given up its query. -/
def retired (client : Client σ K) (query : Query) : Client σ K :=
  { client with pending := none, tables := client.tables.retire query.slot }

omit [Prf K] in
theorem contains_spent (client : Client σ K) (query : Query) (word : UInt64) :
    (client.spent query word).cache.contains query.index = true := by
  rw [Cache.contains, spent, settled, Cache.get?_insert, if_pos rfl]
  rfl

/-- An index was not known when its hint was selected, and nothing is kept of a query that
is given up. -/
theorem Selects.contains_retired (selects : client.Selects query) :
    ((client.awaiting query).retired query).cache.contains query.index = false := by
  rw [Cache.contains]
  exact Option.isSome_eq_false_iff.mpr (Option.isNone_iff_eq_none.mpr selects.fresh)

omit [Prf K] in
/-- Where the used hint was, its backup hint is; all other slots are as before. -/
theorem hint?_refreshed {used : Hint K} (held : client.tables.hint? query.slot = some used)
    (word : UInt64) (hint : Hint K) (position slot : Nat) :
    (client.refreshed query word hint position).tables.hint? slot
      = if slot = query.slot then some ((hint.program query.index).xorParity word)
        else client.tables.hint? slot := by
  have within : query.slot < (client.tables.takeBackup query.chunk position).primary.length :=
    Tables.lt_length_of_hint? held
  exact Tables.hint?_install _ within _ slot

omit [Prf K] in
/-- The next backup hint of a chunk lies behind those that have been used. -/
theorem nextBackup_of_some {chunk position : Nat} {hint : Hint K}
    (h : client.nextBackup chunk = some (hint, position)) :
    position = client.consumed.getD chunk 0 ∧ position < client.params.backupsPerChunk
      ∧ client.tables.backup? chunk position = some hint := by
  unfold nextBackup at h
  dsimp only at h
  split at h
  · rename_i left
    obtain ⟨held, there, eq⟩ := Option.map_eq_some_iff.mp h
    cases eq
    exact ⟨rfl, left, there⟩
  · exact absurd h (by simp)

omit [Prf K] in
theorem answer_of_ok {parities : List UInt64} (h : client.answer query parities = .ok word) :
    client.pending = some query ∧ parities.length = client.params.chunkCount
      ∧ ∃ hint parity, client.tables.hint? query.slot = some hint
        ∧ parities[query.chunk]? = some parity ∧ word = parity ^^^ hint.parity := by
  unfold answer at h
  cases held : client.pendingHint query with
  | error cause => rw [held] at h; exact absurd h (by simp [Outcome.bind])
  | fault cause => rw [held] at h; exact absurd h (by simp [Outcome.bind])
  | ok hint =>
    obtain ⟨pending, held'⟩ := pendingHint_of_ok held
    rw [held] at h
    simp only [Outcome.bind] at h
    split at h
    · exact absurd h (by simp)
    rename_i length
    split at h
    · rename_i parity here
      exact ⟨pending, Decidable.not_not.mp length, hint, parity, held', here,
        (Outcome.ok.inj h).symm⟩
    · exact absurd h (by simp)

omit [Prf K] in
theorem answer_of_pending (pending : client.pending = some query) {hint : Hint K}
    (held : client.tables.hint? query.slot = some hint) {parities : List UInt64} {parity : UInt64}
    (length : parities.length = client.params.chunkCount)
    (here : parities[query.chunk]? = some parity) :
    client.answer query parities = .ok (parity ^^^ hint.parity) := by
  rw [answer, pendingHint_of_pending pending held]
  simp only [Outcome.bind]
  rw [if_neg (fun differs => differs length), here]

omit [Prf K] in
theorem answer_of_miscount (pending : client.pending = some query) {hint : Hint K}
    (held : client.tables.hint? query.slot = some hint) {parities : List UInt64}
    (miscount : parities.length ≠ client.params.chunkCount) :
    client.answer query parities
      = .error (.parityCount client.params.chunkCount parities.length) := by
  rw [answer, pendingHint_of_pending pending held]
  exact if_pos miscount

omit [Prf K] in
theorem answer_ne_exhausted (parities : List UInt64) (chunk index : Nat) :
    client.answer query parities ≠ .error (.backupsExhausted chunk index) := by
  unfold answer pendingHint
  split
  · simp [Outcome.bind]
  · cases client.tables.hint? query.slot with
    | none => simp [Outcome.bind]
    | some hint =>
      simp only [Outcome.bind]
      split
      · simp
      · split <;> simp

omit [Prf K] in
/-- An answer with a word is kept, whether or not a backup hint is left. -/
theorem recover_of_answer {parities : List UInt64} (h : client.answer query parities = .ok word) :
    recover query parities client = match client.nextBackup query.chunk with
      | some (hint, position) => ⟨.ok word, client.refreshed query word hint position, []⟩
      | none => ⟨.error (.backupsExhausted query.chunk query.index), client.spent query word,
          [.exhausted query.chunk query.index]⟩ := by
  rw [recover, Action.read_bind, h]
  -- The word is kept before a backup hint is looked for.
  show (refresh query word >>= fun _ => Pure.pure word) (client.settled query word) = _
  cases next : client.nextBackup query.chunk with
  | some found =>
    have fresh : refresh query word (client.settled query word)
        = ⟨.ok (), client.refreshed query word found.1 found.2, []⟩ := by
      rw [refresh, show (client.settled query word).nextBackup query.chunk = some found from next]
      rfl
    rw [Action.bind_of_ok (congrArg Step.outcome fresh), fresh]
    rfl
  | none =>
    have last : refresh query word (client.settled query word)
        = ⟨.error (.backupsExhausted query.chunk query.index), client.spent query word,
            [.exhausted query.chunk query.index]⟩ := by
      rw [refresh, show (client.settled query word).nextBackup query.chunk = none from next]
      rfl
    rw [Action.bind_of_error (congrArg Step.outcome last), last]

omit [Prf K] in
theorem recover_of_error {parities : List UInt64} {cause : Error}
    (h : client.answer query parities = .error cause) :
    recover query parities client = ⟨.error cause, client, []⟩ := by
  rw [recover, Action.read_bind, h]

omit [Prf K] in
theorem recover_of_fault {parities : List UInt64} {cause : Fault}
    (h : client.answer query parities = .fault cause) :
    recover query parities client = ⟨.fault cause, client, []⟩ := by
  rw [recover, Action.read_bind, h]

omit [Prf K] in
theorem recover_of_no_answer {parities : List UInt64}
    (h : ∀ word, client.answer query parities ≠ .ok word) :
    (recover query parities client).state = client
      ∧ (∀ word, (recover query parities client).outcome ≠ .ok word)
      ∧ ∀ chunk index, (recover query parities client).outcome
          ≠ .error (.backupsExhausted chunk index) := by
  cases asked : client.answer query parities with
  | ok word => exact absurd asked (h word)
  | error cause =>
    rw [recover_of_error asked]
    refine ⟨rfl, fun word => by simp, fun chunk index exhausted => ?_⟩
    exact answer_ne_exhausted parities chunk index (asked.trans exhausted)
  | fault cause =>
    rw [recover_of_fault asked]
    exact ⟨rfl, fun word => by simp, fun chunk index => by simp⟩

omit [Prf K] in
/-- Parities leave a word, or change nothing. -/
theorem recover_cases (client : Client σ K) (query : Query) (parities : List UInt64) :
    (∃ word, client.answer query parities = .ok word)
    ∨ ((recover query parities client).state = client
      ∧ (∀ word, (recover query parities client).outcome ≠ .ok word)
      ∧ ∀ chunk index, (recover query parities client).outcome
          ≠ .error (.backupsExhausted chunk index)) := by
  by_cases answered : ∃ word, client.answer query parities = .ok word
  · exact .inl answered
  · exact .inr (recover_of_no_answer (not_exists.mp answered))

omit [Prf K] in
theorem processResponse_of_idle (idle : client.pending = none) (response : Bytes) :
    processResponse response client = ⟨.error .noPendingQuery, client, []⟩ := by
  rw [processResponse, Action.read_bind, pendingQuery, idle]

omit [Prf K] in
theorem processResponse_of_pending (pending : client.pending = some query) (response : Bytes) :
    processResponse response client = match Words.decode response with
      | .ok parities => recover query parities client
      | .error cause => ⟨.error cause, client, []⟩ := by
  rw [processResponse, Action.read_bind, pendingQuery, pending]
  dsimp only
  rw [Action.done_bind]
  cases Words.decode response with
  | ok parities => rfl
  | error cause => rfl

omit [Prf K] in
/-- An answer in bytes is undecodable, or is that of the parities it encodes. -/
theorem processResponse_cases (client : Client σ K) (response : Bytes) :
    (∃ query parities, client.pending = some query ∧ Words.decode response = .ok parities
      ∧ processResponse response client = recover query parities client)
    ∨ ∃ cause, (client.pending = none ∨ Words.decode response = .error cause)
      ∧ (∀ chunk index, cause ≠ .backupsExhausted chunk index)
      ∧ processResponse response client = ⟨.error cause, client, []⟩ := by
  cases pending : client.pending with
  | none => exact .inr ⟨_, .inl rfl, fun _ _ => by simp, processResponse_of_idle pending response⟩
  | some query =>
    rw [processResponse_of_pending pending]
    cases decoded : Words.decode response with
    | ok parities => exact .inl ⟨query, parities, rfl, rfl, rfl⟩
    | error cause =>
      obtain ⟨why, rfl⟩ := Words.undecodable_of_error decoded
      exact .inr ⟨_, .inr rfl, fun _ _ => by simp, rfl⟩

omit [Prf K] in
theorem recover_of_ne (other : client.pending ≠ some query) (parities : List UInt64) :
    recover query parities client = ⟨.error .noPendingQuery, client, []⟩ := by
  have refused : client.answer query parities = .error .noPendingQuery := by
    rw [answer, pendingHint_of_ne other]
    rfl
  rw [recover, Action.read_bind, refused]

/-! ### Giving up -/

omit [Prf K] in
theorem discard_of_pending (pending : client.pending = some query) :
    discard client = ⟨.ok (some query), client.retired query, [.discarded query.index]⟩ := by
  rw [discard, pending]
  rfl

omit [Prf K] in
theorem discard_of_idle (idle : client.pending = none) :
    discard client = ⟨.ok none, client, []⟩ := by
  rw [discard, idle]

section Guarded

variable {action : Act σ K α}

omit [Prf K] in
theorem discardOnError_of_ok {value : α} (h : (action client).outcome = .ok value) :
    discardOnError action client
      = ⟨.ok value, (action client).state, (action client).events⟩ := by
  have tried := Action.attempt_of_ok h
  rw [discardOnError, Action.bind_of_ok (congrArg Step.outcome tried), tried]
  exact congrArg (Step.mk _ _) (List.append_nil _)

omit [Prf K] in
theorem discardOnError_of_error {cause : Error} (h : (action client).outcome = .error cause) :
    discardOnError action client
      = ⟨.error cause, (discard (action client).state).state,
          (action client).events ++ (discard (action client).state).events⟩ := by
  have tried := Action.attempt_of_error h
  -- Giving up never fails, so that the error of the action is what is left.
  obtain ⟨found, dropped⟩ : ∃ found, (discard (action client).state).outcome = .ok found := by
    cases pending : (action client).state.pending with
    | none => exact ⟨none, by rw [discard_of_idle pending]⟩
    | some query => exact ⟨some query, by rw [discard_of_pending pending]⟩
  rw [discardOnError, Action.bind_of_ok (congrArg Step.outcome tried), tried]
  dsimp only
  rw [Action.bind_of_ok dropped]
  exact congrArg (fun more => Step.mk _ _ (_ ++ more)) (List.append_nil _)

omit [Prf K] in
theorem discardOnError_of_fault {cause : Fault} (h : (action client).outcome = .fault cause) :
    discardOnError action client
      = ⟨.fault cause, (action client).state, (action client).events⟩ := by
  have tried := Action.attempt_of_fault h
  rw [discardOnError, Action.bind_of_fault (congrArg Step.outcome tried), tried]

end Guarded

/-- The part of a retrieval that follows the query: the answer is carried back and
taken. -/
def exchange (respond : Bytes → Reply Bytes) (bytes : Bytes) : Act σ K UInt64 := do
  let response ← (respond bytes).toAction
  processResponse response

/-- How a step ends that takes `word` as the answer to a query. -/
def Answered (client : Client σ K) (query : Query) (word : UInt64) (outcome : Outcome Error UInt64)
    (state : Client σ K) : Prop :=
  (∃ hint position, client.nextBackup query.chunk = some (hint, position)
    ∧ outcome = .ok word ∧ state = client.refreshed query word hint position)
  ∨ (client.nextBackup query.chunk = none
    ∧ outcome = .error (.backupsExhausted query.chunk query.index)
    ∧ state = client.spent query word)

/-- The bytes carry parities that leave `word` for the query. -/
def Carries (client : Client σ K) (query : Query) (response : Bytes) (word : UInt64) : Prop :=
  ∃ parities, Words.decode response = .ok parities ∧ client.answer query parities = .ok word

/-- The word that a reply leaves for a query. -/
def heard (client : Client σ K) (query : Query) (reply : Reply Bytes) : Outcome Error UInt64 :=
  (Outcome.ofExcept reply.result).bind fun response =>
    (Outcome.ofExcept (Words.decode response)).bind (client.answer query)

omit [Prf K] in
theorem heard_of_error {reply : Reply Bytes} {cause : Error} (told : reply.result = .error cause) :
    client.heard query reply = .error cause := by
  rw [heard, told]
  rfl

omit [Prf K] in
theorem heard_of_undecodable {reply : Reply Bytes} {response : Bytes} {cause : Error}
    (told : reply.result = .ok response) (decoded : Words.decode response = .error cause) :
    client.heard query reply = .error cause := by
  rw [heard, told]
  simp only [Outcome.ofExcept, Outcome.bind, decoded]

omit [Prf K] in
theorem heard_of_decoded {reply : Reply Bytes} {response : Bytes} {parities : List UInt64}
    (told : reply.result = .ok response) (decoded : Words.decode response = .ok parities) :
    client.heard query reply = client.answer query parities := by
  rw [heard, told]
  simp only [Outcome.ofExcept, Outcome.bind, decoded]

omit [Prf K] in
theorem carries_of_heard {reply : Reply Bytes} (h : client.heard query reply = .ok word) :
    ∃ response, reply.result = .ok response ∧ client.Carries query response word := by
  cases told : reply.result with
  | error cause => exact absurd ((heard_of_error told).symm.trans h) (by simp)
  | ok response =>
    cases decoded : Words.decode response with
    | error cause => exact absurd ((heard_of_undecodable told decoded).symm.trans h) (by simp)
    | ok parities =>
      exact ⟨response, rfl, parities, decoded, (heard_of_decoded told decoded).symm.trans h⟩

omit [Prf K] in
theorem told_of_heard_exhausted {reply : Reply Bytes} {chunk index : Nat}
    (h : client.heard query reply = .error (.backupsExhausted chunk index)) :
    reply.result = .error (.backupsExhausted chunk index) := by
  cases told : reply.result with
  | error cause =>
    exact congrArg Except.error (Outcome.error.inj ((heard_of_error told).symm.trans h))
  | ok response =>
    cases decoded : Words.decode response with
    | error cause =>
      obtain ⟨why, rfl⟩ := Words.undecodable_of_error decoded
      exact absurd ((heard_of_undecodable told decoded).symm.trans h) (by simp)
    | ok parities =>
      exact absurd ((heard_of_decoded told decoded).symm.trans h)
        (answer_ne_exhausted parities chunk index)

omit [Prf K] in
theorem exchange_of_refused {respond : Bytes → Reply Bytes} {bytes : Bytes} {cause : Error}
    (told : (respond bytes).result = .error cause) :
    exchange respond bytes client = ⟨.error cause, client, (respond bytes).events⟩ := by
  have carried : ((respond bytes).toAction client : Step Error _ _).outcome = .error cause := by
    rw [Reply.toAction, told]
    rfl
  rw [exchange, Action.bind_of_error carried]
  rfl

omit [Prf K] in
/-- Behind the reports of the transport, an exchange is what becomes of the response. -/
theorem exchange_of_told {respond : Bytes → Reply Bytes} {bytes response : Bytes}
    (told : (respond bytes).result = .ok response) :
    exchange respond bytes client
      = { outcome := (processResponse response client).outcome
          state := (processResponse response client).state
          events := (respond bytes).events ++ (processResponse response client).events } := by
  have carried : ((respond bytes).toAction client : Step Error _ _).outcome = .ok response := by
    rw [Reply.toAction, told]
    rfl
  rw [exchange, Action.bind_of_ok carried]
  rfl

omit [Prf K] in
/-- An exchange about the pending query ends with its answer, or leaves the client
as it was. -/
theorem exchange_of_pending (pending : client.pending = some query)
    (respond : Bytes → Reply Bytes) (bytes : Bytes) :
    exchange respond bytes client = match client.heard query (respond bytes) with
      | .ok word =>
        match client.nextBackup query.chunk with
        | some (hint, position) =>
          ⟨.ok word, client.refreshed query word hint position, (respond bytes).events⟩
        | none =>
          ⟨.error (.backupsExhausted query.chunk query.index), client.spent query word,
            (respond bytes).events ++ [.exhausted query.chunk query.index]⟩
      | .error cause => ⟨.error cause, client, (respond bytes).events⟩
      | .fault cause => ⟨.fault cause, client, (respond bytes).events⟩ := by
  cases told : (respond bytes).result with
  | error cause => rw [exchange_of_refused told, heard_of_error told]
  | ok response =>
    rw [exchange_of_told told, processResponse_of_pending pending]
    -- The response reports nothing itself, unless it costs the hint.
    cases decoded : Words.decode response with
    | error cause =>
      rw [heard_of_undecodable told decoded]
      exact congrArg (Step.mk _ _) (List.append_nil _)
    | ok parities =>
      rw [heard_of_decoded told decoded]
      dsimp only
      cases answered : client.answer query parities with
      | ok word =>
        rw [recover_of_answer answered]
        cases client.nextBackup query.chunk with
        | some found => exact congrArg (Step.mk _ _) (List.append_nil _)
        | none => rfl
      | error cause =>
        rw [recover_of_error answered]
        exact congrArg (Step.mk _ _) (List.append_nil _)
      | fault cause =>
        rw [recover_of_fault answered]
        exact congrArg (Step.mk _ _) (List.append_nil _)

omit [Prf K] in
/-- A guarded exchange does not leave a query pending, unless it ends with a fault. -/
theorem guarded_exchange (pending : client.pending = some query)
    (respond : Bytes → Reply Bytes) (bytes : Bytes) :
    discardOnError (exchange respond bytes) client = match client.heard query (respond bytes) with
      | .ok word =>
        match client.nextBackup query.chunk with
        | some (hint, position) =>
          ⟨.ok word, client.refreshed query word hint position, (respond bytes).events⟩
        | none =>
          ⟨.error (.backupsExhausted query.chunk query.index), client.spent query word,
            (respond bytes).events ++ [.exhausted query.chunk query.index]⟩
      | .error cause =>
        ⟨.error cause, client.retired query, (respond bytes).events ++ [.discarded query.index]⟩
      | .fault cause => ⟨.fault cause, client, (respond bytes).events⟩ := by
  have eq := exchange_of_pending pending respond bytes
  cases told : client.heard query (respond bytes) with
  | error cause =>
    rw [told] at eq
    rw [discardOnError_of_error (congrArg Step.outcome eq), eq, discard_of_pending pending]
  | fault cause =>
    rw [told] at eq
    rw [discardOnError_of_fault (congrArg Step.outcome eq), eq]
  | ok word =>
    rw [told] at eq
    dsimp only at eq ⊢
    cases next : client.nextBackup query.chunk with
    | some found =>
      rw [next] at eq
      rw [discardOnError_of_ok (congrArg Step.outcome eq), eq]
    | none =>
      rw [next] at eq
      -- The query is pending no more, and there is nothing left to give up.
      rw [discardOnError_of_error (congrArg Step.outcome eq), eq,
        discard_of_idle (client.pending_spent query word), List.append_nil]

theorem retrieve_of_cached {index : Nat} (respond : Bytes → Reply Bytes)
    (known : client.cached index = some word) :
    retrieve index respond client = ⟨.ok word, client, []⟩ := by
  rw [retrieve, Action.read_bind, known]
  rfl

theorem retrieve_of_unknown {index : Nat} (respond : Bytes → Reply Bytes)
    (unknown : client.cached index = none) :
    retrieve index respond client
      = (Client.query index >>= fun bytes => discardOnError (exchange respond bytes)) client := by
  rw [retrieve, Action.read_bind, unknown]
  rfl

theorem retrieve_of_select_error {index : Nat} (respond : Bytes → Reply Bytes)
    (unknown : client.cached index = none) {cause : Error} {events : List Event}
    (h : select index client = ⟨.error cause, client, events⟩) :
    retrieve index respond client = ⟨.error cause, client, events⟩ := by
  have asked : Client.query index client = ⟨.error cause, client, events⟩ := by
    rw [Client.query, Action.bind_of_error (congrArg Step.outcome h), h]
  rw [retrieve_of_unknown respond unknown, Action.bind_of_error (congrArg Step.outcome asked),
    asked]

theorem retrieve_of_select_not_ok {index : Nat} (respond : Bytes → Reply Bytes)
    (unknown : client.cached index = none)
    (h : ∀ query, (select index client).outcome ≠ .ok query) :
    (retrieve index respond client).state = client
      ∧ ∀ word, (retrieve index respond client).outcome ≠ .ok word := by
  obtain ⟨same, never⟩ := query_of_select_not_ok h
  rw [retrieve_of_unknown respond unknown]
  cases outcome : (Client.query index client).outcome with
  | ok bytes => exact absurd outcome (never bytes)
  | error cause =>
    rw [Action.bind_of_error outcome]
    exact ⟨same, fun word => by simp⟩
  | fault cause =>
    rw [Action.bind_of_fault outcome]
    exact ⟨same, fun word => by simp⟩

/-- What is left of a retrieval once its query is made. -/
theorem retrieve_of_query_ok {index : Nat} {bytes : Bytes} (respond : Bytes → Reply Bytes)
    (h : (select index client).outcome = .ok query)
    (asked : (Client.query index client).outcome = .ok bytes) :
    retrieve index respond client
      = discardOnError (exchange respond bytes) (client.awaiting query) := by
  obtain ⟨selects, rfl, -⟩ := select_of_ok h
  rw [retrieve_of_unknown respond selects.fresh, Action.bind_of_ok asked, query_of_select_ok h]
  rfl

/-- Once a hint is selected, a retrieval ends with the answer to its query, or gives
the query up. -/
theorem retrieve_of_select_ok {index : Nat} (respond : Bytes → Reply Bytes)
    (h : (select index client).outcome = .ok query) :
    (∃ bytes response word, (Client.query index client).outcome = .ok bytes
      ∧ (respond bytes).result = .ok response
      ∧ (client.awaiting query).Carries query response word
      ∧ (client.awaiting query).Answered query word (retrieve index respond client).outcome
          (retrieve index respond client).state)
    ∨ (∃ cause, (retrieve index respond client).outcome = .error cause
      ∧ (retrieve index respond client).state = (client.awaiting query).retired query)
    ∨ (∃ cause, (retrieve index respond client).outcome = .fault cause
      ∧ (retrieve index respond client).state = client.awaiting query) := by
  obtain ⟨selects, rfl, -⟩ := select_of_ok h
  have asked := query_of_select_ok h
  cases prepared : (client.awaiting query).prepare query with
  | error cause =>
    -- The query is pending, and the slot that was just selected is live.
    exact absurd prepared (prepare_awaiting_ne_error selects cause)
  | fault cause =>
    have outcome : (Client.query query.index client).outcome = .fault cause := by
      rw [asked, prepared]
      rfl
    rw [retrieve_of_unknown respond selects.fresh, Action.bind_of_fault outcome, asked]
    exact .inr (.inr ⟨cause, rfl, rfl⟩)
  | ok offsets =>
    have outcome : (Client.query query.index client).outcome = .ok (encodeOffsets offsets) := by
      rw [asked, prepared]
      rfl
    rw [retrieve_of_query_ok respond h outcome]
    rw [guarded_exchange (client.pending_awaiting query)]
    cases told : (client.awaiting query).heard query (respond (encodeOffsets offsets)) with
    | error cause => exact .inr (.inl ⟨cause, rfl, rfl⟩)
    | fault cause => exact .inr (.inr ⟨cause, rfl, rfl⟩)
    | ok word =>
      obtain ⟨response, carried, carries⟩ := carries_of_heard told
      refine .inl ⟨_, response, word, outcome, carried, carries, ?_⟩
      cases next : (client.awaiting query).nextBackup query.chunk with
      | some found => exact .inl ⟨found.1, found.2, next, rfl, rfl⟩
      | none => exact .inr ⟨next, rfl, rfl⟩

/-! ### Fresh hints -/

/-- A client with fresh tables. -/
def rebuilt [KeySource σ K] (client : Client σ K) (tables : Tables K) : Client σ K :=
  { client with
    source := skipKeys K (client.params.primaryCount + client.params.backupCount) client.source
    tables
    consumed := List.replicate client.params.chunkCount 0
    pending := none }

theorem rebuild_cases [KeySource σ K] (stream : List Chunk) (client : Client σ K) :
    (∃ tables, tables.Built client.params client.source stream
      ∧ (rebuild stream client).outcome = .ok ()
      ∧ (rebuild stream client).state = client.rebuilt tables)
    ∨ ((rebuild stream client).state = { client with
          source := skipKeys K (client.params.primaryCount + client.params.backupCount)
            client.source }
      ∧ (rebuild stream client).outcome ≠ .ok ()) := by
  unfold rebuild
  dsimp only
  rw [Tables.draw_source]
  cases absorbed : Tables.absorbStream (K := K) client.params 0 stream
      (Tables.draw client.params client.source).1 with
  | ok tables => exact .inl ⟨tables, Tables.built_of_absorbStream absorbed, rfl, rfl⟩
  | error cause => exact .inr ⟨rfl, by simp⟩
  | fault cause => exact .inr ⟨rfl, by simp⟩

theorem rebuild_of_ok [KeySource σ K] {stream : List Chunk}
    (ready : (rebuild stream client).outcome = .ok ()) :
    ∃ tables, tables.Built client.params client.source stream
      ∧ (rebuild stream client).state = client.rebuilt tables := by
  rcases rebuild_cases stream client with ⟨tables, built, -, left⟩ | ⟨-, failed⟩
  · exact ⟨tables, built, left⟩
  · exact absurd ready failed

theorem rebuild_ok [KeySource σ K] (valid : client.params.Valid) {stream : List Chunk}
    (length : stream.length = client.params.chunkCount)
    (lengths : ∀ words ∈ stream, words.length = client.params.chunkSize) :
    (rebuild stream client).outcome = .ok () := by
  have all : 0 + stream.length = client.params.chunkCount := by rw [Nat.zero_add, length]
  obtain ⟨tables, read⟩ := Tables.absorbStream_ok valid
    (Tables.draw (K := K) client.params client.source).1 all lengths
  rw [rebuild, read]

end Client

end PrivateRetrieval
