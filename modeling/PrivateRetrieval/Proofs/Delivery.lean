/-
Operations that bring an answer.

Parities reach the pending query in three ways: as they are, as bytes, or through
the transport of a retrieval.  If there are as many as there are chunks they are
taken, whatever they are, and that is the only way in which a word is kept:

* **`Operation.Brings`**, **`Operation.Delivers`** — which parities an operation brings
  for which query, and whether they are as many as there are chunks;
* **`Client.Consistent.taken`** — the word that they leave is kept, and its hint is
  replaced, or retired for want of a backup hint (`Client.Consistent.exhausted`);
* **`Client.cache_of_not_delivers`** — any other operation leaves the cache alone.
-/
import PrivateRetrieval.Proofs.Consistency

namespace PrivateRetrieval

variable {σ K : Type} [Prf K]

/-- The operation brings these parities for a query that is pending when they arrive. -/
def Operation.Brings (client : Client σ K) (query : Query) (parities : List UInt64) :
    Operation → Prop
  | .recover handle given => client.pending = some query ∧ handle = query ∧ given = parities
  | .processResponse response =>
    client.pending = some query ∧ Words.decode response = .ok parities
  | .retrieve index respond =>
    (Client.select index client).outcome = .ok query ∧ ∃ bytes response,
      (Client.query index client).outcome = .ok bytes
        ∧ (respond bytes).result = .ok response ∧ Words.decode response = .ok parities
  | _ => False

/-- The operation brings as many parities for a query as there are chunks. -/
def Operation.Delivers (client : Client σ K) (query : Query) (operation : Operation) : Prop :=
  ∃ parities, operation.Brings client query parities
    ∧ parities.length = client.params.chunkCount

/-- Operations that hand in an answer as such. -/
def Operation.Answering : Operation → Prop
  | .recover _ _ | .processResponse _ => True
  | _ => False

namespace Client

variable {client : Client σ K} {query : Query} {parities : List UInt64} {word : UInt64}

/-- The parities leave `word` for a query whose word is not known. -/
structure Leaves (client : Client σ K) (query : Query) (parities : List UInt64) (word : UInt64) :
    Prop where
  within : query.chunk < client.params.chunkCount
  unknown : client.cached query.index = none
  parity : ∃ hint parity, client.tables.hint? query.slot = some hint
    ∧ parities[query.chunk]? = some parity ∧ word = parity ^^^ hint.parity

theorem Awaits.leaves (awaits : client.Awaits query) (valid : client.params.Valid)
    (length : parities.length = client.params.chunkCount) :
    ∃ word, client.Leaves query parities word := by
  obtain ⟨hint, held, -⟩ := awaits.held
  have within := awaits.chunk_lt valid
  have here := List.getElem?_eq_getElem (Nat.lt_of_lt_of_eq within length.symm)
  exact ⟨_, within, awaits.fresh, hint, _, held, here, rfl⟩

omit [Prf K] in
theorem Leaves.answer (leaves : client.Leaves query parities word)
    (pending : client.pending = some query)
    (length : parities.length = client.params.chunkCount) :
    client.answer query parities = .ok word := by
  obtain ⟨hint, parity, held, here, rfl⟩ := leaves.parity
  exact answer_of_pending pending held length here

theorem Consistent.leaves_of_answer (consistent : client.Consistent)
    (h : client.answer query parities = .ok word) : client.Leaves query parities word := by
  obtain ⟨pending, -, parity⟩ := answer_of_ok h
  have awaits := consistent.awaits pending
  exact ⟨awaits.chunk_lt consistent.valid, awaits.fresh, parity⟩

omit [Prf K] in
theorem answered_of_answer (h : client.answer query parities = .ok word) :
    client.Answered query word (recover query parities client).outcome
      (recover query parities client).state := by
  rw [recover_of_answer h]
  cases next : client.nextBackup query.chunk with
  | some found => exact .inl ⟨found.1, found.2, next, rfl, rfl⟩
  | none => exact .inr ⟨next, rfl, rfl⟩

omit [Prf K] in
/-- What a guarded exchange does with a word is what an answer does with it. -/
theorem answered_of_heard (pending : client.pending = some query)
    {respond : Bytes → Reply Bytes} {bytes : Bytes}
    (h : client.heard query (respond bytes) = .ok word) :
    client.Answered query word (discardOnError (exchange respond bytes) client).outcome
      (discardOnError (exchange respond bytes) client).state := by
  rw [guarded_exchange pending, h]
  cases next : client.nextBackup query.chunk with
  | some found => exact .inl ⟨found.1, found.2, next, rfl, rfl⟩
  | none => exact .inr ⟨next, rfl, rfl⟩

theorem Consistent.recover_exhausted (consistent : client.Consistent) {chunk index : Nat}
    (h : (recover query parities client).outcome = .error (.backupsExhausted chunk index)) :
    ∃ word, client.pending = some query ∧ parities.length = client.params.chunkCount
      ∧ client.Leaves query parities word ∧ query.chunk = chunk ∧ query.index = index
      ∧ (recover query parities client).state = client.spent query word := by
  rcases recover_cases client query parities with ⟨word, answered⟩ | ⟨-, -, notSpent⟩
  · obtain ⟨pending, length, -⟩ := answer_of_ok answered
    have leaves := consistent.leaves_of_answer answered
    rcases answered_of_answer answered with ⟨hint, position, -, ended, -⟩ | ⟨-, ended, kept⟩
    · exact absurd (ended.symm.trans h) (by simp)
    · obtain ⟨rfl, rfl⟩ := Error.backupsExhausted.inj (Outcome.error.inj (ended.symm.trans h))
      exact ⟨word, pending, length, leaves, rfl, rfl, kept⟩
  · exact absurd h (notSpent chunk index)

variable [KeySource σ K] [RandomSource σ] {operation : Operation}

/-- Enough parities are taken. -/
theorem Consistent.taken (consistent : client.Consistent)
    (brings : operation.Brings client query parities)
    (length : parities.length = client.params.chunkCount) :
    ∃ word outcome, client.Leaves query parities word
      ∧ client.Answered query word outcome (operation.act client).state
      ∧ (operation.act client).outcome = Result.word <$> outcome := by
  cases operation with
  | recover handle given =>
    obtain ⟨pending, rfl, rfl⟩ := brings
    obtain ⟨word, leaves⟩ := (consistent.awaits pending).leaves consistent.valid length
    rw [Operation.act, Action.map_apply]
    exact ⟨word, _, leaves, answered_of_answer (leaves.answer pending length), rfl⟩
  | processResponse response =>
    obtain ⟨pending, decoded⟩ := brings
    obtain ⟨word, leaves⟩ := (consistent.awaits pending).leaves consistent.valid length
    have eq := processResponse_of_pending pending response
    rw [decoded] at eq
    rw [Operation.act, Action.map_apply, eq]
    exact ⟨word, _, leaves, answered_of_answer (leaves.answer pending length), rfl⟩
  | retrieve index respond =>
    obtain ⟨selected, bytes, response, asked, told, decoded⟩ := brings
    obtain ⟨selects, -, -⟩ := select_of_ok selected
    obtain ⟨word, leaves⟩ := selects.awaits.leaves consistent.valid length
    have heard : (client.awaiting query).heard query (respond bytes) = .ok word :=
      (heard_of_decoded told decoded).trans (leaves.answer rfl length)
    rw [Operation.act, Action.map_apply, retrieve_of_query_ok respond selected asked]
    -- Apart from the pending query the client is as it was, and that is gone afterwards.
    exact ⟨word, _, ⟨leaves.within, leaves.unknown, leaves.parity⟩,
      answered_of_heard (client.pending_awaiting query) heard, rfl⟩
  | _ => exact brings.elim

/-- An answer that yields a word is one that was taken. -/
theorem delivers_of_word {result : Result} (answering : operation.Answering)
    (h : (operation.act client).outcome = .ok result) :
    ∃ query, operation.Delivers client query := by
  cases operation with
  | recover handle parities =>
    rw [Operation.act, Action.map_apply] at h
    obtain ⟨word, yielded, -⟩ := Outcome.map_eq_ok h
    rcases recover_cases client handle parities with ⟨word, answered⟩ | ⟨-, noWord, -⟩
    · obtain ⟨pending, length, -⟩ := answer_of_ok answered
      exact ⟨handle, parities, ⟨pending, rfl, rfl⟩, length⟩
    · exact absurd yielded (noWord word)
  | processResponse response =>
    rw [Operation.act, Action.map_apply] at h
    obtain ⟨word, yielded, -⟩ := Outcome.map_eq_ok h
    rcases processResponse_cases client response with
      ⟨query, parities, pending, decoded, eq⟩ | ⟨cause, -, -, eq⟩
    · rw [eq] at yielded
      rcases recover_cases client query parities with ⟨word, answered⟩ | ⟨-, noWord, -⟩
      · exact ⟨query, parities, ⟨pending, decoded⟩, (answer_of_ok answered).2.1⟩
      · exact absurd yielded (noWord word)
    · rw [eq] at yielded
      exact absurd yielded (by simp)
  | _ => exact answering.elim

/-- An answer that is taken although no backup hint is left for it. -/
theorem Consistent.exhausted (consistent : client.Consistent) {chunk index : Nat}
    (answering : operation.Answering)
    (h : (operation.act client).outcome = .error (.backupsExhausted chunk index)) :
    ∃ query parities word, operation.Brings client query parities
      ∧ parities.length = client.params.chunkCount ∧ client.Leaves query parities word
      ∧ query.chunk = chunk ∧ query.index = index
      ∧ (operation.act client).state = client.spent query word := by
  cases operation with
  | recover handle parities =>
    rw [Operation.act, Action.map_apply] at h ⊢
    obtain ⟨word, pending, length, left⟩ :=
      consistent.recover_exhausted (Outcome.map_eq_error h)
    exact ⟨handle, parities, word, ⟨pending, rfl, rfl⟩, length, left⟩
  | processResponse response =>
    rw [Operation.act, Action.map_apply] at h ⊢
    have failed := Outcome.map_eq_error h
    rcases processResponse_cases client response with
      ⟨query, parities, pending, decoded, eq⟩ | ⟨other, -, notSpent, eq⟩
    · rw [eq] at failed ⊢
      obtain ⟨word, -, length, left⟩ := consistent.recover_exhausted failed
      exact ⟨query, parities, word, ⟨pending, decoded⟩, length, left⟩
    · rw [eq] at failed
      exact absurd (Outcome.error.inj failed) (notSpent chunk index)
  | _ => exact answering.elim

omit [Prf K] [KeySource σ K] [RandomSource σ] in
/-- A guarded exchange says that backup hints have run out if they have, or if its transport says
so. -/
theorem guarded_exhausted (pending : client.pending = some query) {respond : Bytes → Reply Bytes}
    {bytes : Bytes} {chunk index : Nat}
    (h : (discardOnError (exchange respond bytes) client).outcome
      = .error (.backupsExhausted chunk index)) :
    (query.chunk = chunk ∧ query.index = index ∧ ∃ response parities,
      (respond bytes).result = .ok response ∧ Words.decode response = .ok parities
        ∧ parities.length = client.params.chunkCount)
    ∨ (respond bytes).result = .error (.backupsExhausted chunk index) := by
  rw [guarded_exchange pending] at h
  cases told : client.heard query (respond bytes) with
  | ok word =>
    obtain ⟨response, carried, parities, decoded, answered⟩ := carries_of_heard told
    rw [told] at h
    cases next : client.nextBackup query.chunk with
    | some found =>
      rw [next] at h
      exact absurd h (by simp)
    | none =>
      rw [next] at h
      obtain ⟨chunk_eq, index_eq⟩ := Error.backupsExhausted.inj (Outcome.error.inj h)
      exact .inl ⟨chunk_eq, index_eq, response, parities, carried, decoded,
        (answer_of_ok answered).2.1⟩
  | error cause =>
    rw [told] at h
    obtain rfl : cause = _ := Outcome.error.inj h
    exact .inr (told_of_heard_exhausted told)
  | fault cause =>
    rw [told] at h
    exact absurd h (by simp)

omit [KeySource σ K] [RandomSource σ] in
/-- A retrieval says that backup hints have run out if they have, or if its transport
says so. -/
theorem retrieve_exhausted {index chunk index' : Nat} {respond : Bytes → Reply Bytes}
    (h : (retrieve index respond client).outcome = .error (.backupsExhausted chunk index')) :
    (∃ query, (Operation.retrieve index respond).Delivers client query ∧ query.chunk = chunk
      ∧ query.index = index')
    ∨ ∃ bytes, (Client.query index client).outcome = .ok bytes
      ∧ (respond bytes).result = .error (.backupsExhausted chunk index') := by
  cases known : client.cached index with
  | some word =>
    rw [retrieve_of_cached respond known] at h
    exact absurd h (by simp)
  | none =>
    cases asked : (Client.query index client).outcome with
    | error cause =>
      rw [retrieve_of_unknown respond known, Action.bind_of_error asked] at h
      obtain rfl : cause = _ := Outcome.error.inj h
      exact absurd asked (query_ne_exhausted index client chunk index')
    | fault cause =>
      rw [retrieve_of_unknown respond known, Action.bind_of_fault asked] at h
      exact absurd h (by simp)
    | ok bytes =>
      obtain ⟨query, selected⟩ := select_of_query_ok asked
      rw [retrieve_of_query_ok respond selected asked] at h
      rcases guarded_exhausted (client.pending_awaiting query) h with
        ⟨chunk_eq, index_eq, response, parities, carried, decoded, length⟩ | told
      · exact .inl ⟨query, ⟨parities, ⟨selected, bytes, response, asked, carried, decoded⟩, length⟩,
          chunk_eq, index_eq⟩
      · exact .inr ⟨bytes, rfl, told⟩

/-! ### Operations that bring no answer -/

omit [KeySource σ K] [RandomSource σ] in
theorem cache_of_recover (never : ¬ (Operation.recover query parities).Delivers client query) :
    (recover query parities client).state.cache = client.cache := by
  rcases recover_cases client query parities with ⟨word, answered⟩ | ⟨same, -⟩
  · obtain ⟨pending, length, -⟩ := answer_of_ok answered
    exact absurd ⟨parities, ⟨pending, rfl, rfl⟩, length⟩ never
  · rw [same]

omit [KeySource σ K] [RandomSource σ] in
theorem cache_of_retrieve {index : Nat} {respond : Bytes → Reply Bytes}
    (never : ∀ query, ¬ (Operation.retrieve index respond).Delivers client query) :
    (retrieve index respond client).state.cache = client.cache := by
  cases known : client.cached index with
  | some word => rw [retrieve_of_cached respond known]
  | none =>
    by_cases selected : ∃ query, (select index client).outcome = .ok query
    · obtain ⟨query, selected⟩ := selected
      rcases retrieve_of_select_ok respond selected with
        ⟨bytes, response, word, asked, told, ⟨parities, decoded, answered⟩, -⟩
        | ⟨cause, -, left⟩ | ⟨cause, -, left⟩
      · have length := (answer_of_ok answered).2.1
        exact absurd ⟨parities, ⟨selected, bytes, response, asked, told, decoded⟩, length⟩
          (never query)
      · rw [left]
        rfl
      · rw [left]
        rfl
    · rw [(retrieve_of_select_not_ok respond known (not_exists.mp selected)).1]

omit [KeySource σ K] [RandomSource σ] in
theorem cache_of_processResponse {response : Bytes}
    (never : ∀ query, ¬ (Operation.processResponse response).Delivers client query) :
    (processResponse response client).state.cache = client.cache := by
  rcases processResponse_cases client response with
    ⟨query, parities, pending, decoded, eq⟩ | ⟨cause, -, -, eq⟩
  · rw [eq]
    refine cache_of_recover ?_
    rintro ⟨given, ⟨-, -, same⟩, length⟩
    exact never query ⟨parities, ⟨pending, decoded⟩, same ▸ length⟩
  · rw [eq]

omit [KeySource σ K] [RandomSource σ] in
theorem cache_select (client : Client σ K) (index : Nat) :
    (select index client).state.cache = client.cache := by
  rcases select_cases index client with ⟨query, -, -, eq⟩ | ⟨same, -⟩
  · rw [eq]
    rfl
  · rw [same]

omit [KeySource σ K] [RandomSource σ] in
theorem cache_query (client : Client σ K) (index : Nat) :
    (Client.query index client).state.cache = client.cache := by
  by_cases found : ∃ query, (select index client).outcome = .ok query
  · obtain ⟨query, found⟩ := found
    rw [query_of_select_ok found]
    rfl
  · rw [(query_of_select_not_ok (not_exists.mp found)).1]

omit [KeySource σ K] in
theorem cache_randomQuery (client : Client σ K) :
    (randomQuery client).state.cache = client.cache := by
  obtain ⟨source, ⟨query, -, eq⟩ | ⟨moved, -⟩⟩ := randomQuery_cases client
  · rw [eq]
    rfl
  · rw [moved]

omit [Prf K] [KeySource σ K] [RandomSource σ] in
theorem cache_discard (client : Client σ K) : (discard client).state.cache = client.cache := by
  cases pending : client.pending with
  | none => rw [discard_of_idle pending]
  | some query =>
    rw [discard_of_pending pending]
    rfl

omit [RandomSource σ] in
theorem cache_rebuild (client : Client σ K) (stream : List Chunk) :
    (rebuild stream client).state.cache = client.cache := by
  rcases rebuild_cases stream client with ⟨tables, -, -, left⟩ | ⟨left, -⟩
  · rw [left]
    rfl
  · rw [left]

/-- Words are kept from answers alone. -/
theorem cache_of_not_delivers (never : ∀ query, ¬ operation.Delivers client query) :
    (operation.act client).state.cache = client.cache := by
  cases operation with
  | select index =>
    rw [Operation.act, Action.map_apply]
    exact cache_select client index
  | randomQuery =>
    rw [Operation.act, Action.map_apply]
    exact cache_randomQuery client
  | query index =>
    rw [Operation.act, Action.map_apply]
    exact cache_query client index
  | randomQueryBytes =>
    rw [Operation.act, Action.map_apply, randomQueryBytes_state]
    exact cache_randomQuery client
  | prepare handle =>
    rw [Operation.act, Action.map_apply]
    rfl
  | recover handle given =>
    rw [Operation.act, Action.map_apply]
    exact cache_of_recover (never handle)
  | processResponse response =>
    rw [Operation.act, Action.map_apply]
    exact cache_of_processResponse never
  | retrieve index respond =>
    rw [Operation.act, Action.map_apply]
    exact cache_of_retrieve never
  | discard =>
    rw [Operation.act, Action.map_apply]
    exact cache_discard client
  | rebuild stream =>
    rw [Operation.act, Action.map_apply]
    exact cache_rebuild client stream

end Client

end PrivateRetrieval
