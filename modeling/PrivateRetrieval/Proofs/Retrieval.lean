/-
Retrieval over any transport.

A retrieval does all at once: it looks into the cache, makes a query, hands it to a
transport and takes what comes back, and it cleans up after a failure.  The
transport may answer as it likes, and fail with any error:

* **`Client.Exchanged`** — how the query ends, as the reply to it tells: it is given up
  and its hint with it, or its word is kept;
* **`Client.Retrieves`** — what a retrieval does in every case; the transport is asked
  for the punctured trace of the first hint through the index, and in no other case;
* **`Client.retrieval`** — so it is in every state that can be reached.

What a transport reports stands among the events of the step, so the events tell how
often it was asked.
-/
import PrivateRetrieval.Proofs.Delivery
import PrivateRetrieval.Proofs.Representation

namespace PrivateRetrieval

variable {σ K : Type}

namespace Client

/-- A step that ends with an error after its query was sent: the slot is empty, and
nothing else has changed. -/
def gaveUp (client : Client σ K) (query : Query) (heard : List Event) (cause : Error) :
    Step Error (Client σ K) UInt64 :=
  { outcome := .error cause
    state := { client with tables := client.tables.retire query.slot }
    events := heard ++ [.discarded query.index] }

/-- How a step ends that has sent the query of an idle client, with the hint that serves
it, and was given this reply. -/
structure Exchanged (client : Client σ K) (query : Query) (hint : Hint K) (reply : Reply Bytes)
    (step : Step Error (Client σ K) UInt64) : Prop where
  idle : step.state.pending = none
  /-- Any error of the transport is passed on. -/
  failed : ∀ {cause}, reply.result = .error cause → step = client.gaveUp query reply.events cause
  undecodable : ∀ {response cause}, reply.result = .ok response →
    Words.decode response = .error cause →
    (∃ why, cause = .undecodable why) ∧ step = client.gaveUp query reply.events cause
  miscounted : ∀ {response parities}, reply.result = .ok response →
    Words.decode response = .ok parities → parities.length ≠ client.params.chunkCount →
    step = client.gaveUp query reply.events
      (.parityCount client.params.chunkCount parities.length)
  kept : ∀ {response parities}, reply.result = .ok response →
    Words.decode response = .ok parities → parities.length = client.params.chunkCount →
    ∃ parity, parities[query.chunk]? = some parity
      ∧ step.state.cached query.index = some (parity ^^^ hint.parity)
  /-- The hint is replaced by the next backup hint of the chunk. -/
  refreshed : ∀ {response parities}, reply.result = .ok response →
    Words.decode response = .ok parities → parities.length = client.params.chunkCount →
    0 < client.remainingBackups query.chunk →
    ∃ parity position backup, parities[query.chunk]? = some parity
      ∧ client.consumed[query.chunk]? = some position
      ∧ client.tables.backup? query.chunk position = some backup
      ∧ step = {
          outcome := .ok (parity ^^^ hint.parity)
          state := { client with
            cache := client.cache.insert query.index (parity ^^^ hint.parity)
            tables := (client.tables.takeBackup query.chunk position).install query.slot
              ((backup.program query.index).xorParity (parity ^^^ hint.parity))
            consumed := client.consumed.modify query.chunk (· + 1) }
          events := reply.events }
  /-- The word is kept in spite of the error if there is no such hint. -/
  exhausted : ∀ {response parities}, reply.result = .ok response →
    Words.decode response = .ok parities → parities.length = client.params.chunkCount →
    client.remainingBackups query.chunk = 0 →
    ∃ parity, parities[query.chunk]? = some parity
      ∧ step = {
          outcome := .error (.backupsExhausted query.chunk query.index)
          state := { client with
            cache := client.cache.insert query.index (parity ^^^ hint.parity)
            tables := client.tables.retire query.slot }
          events := reply.events ++ [.exhausted query.chunk query.index] }

variable [Prf K]

/-- The first live hint through an index. -/
structure Serves (client : Client σ K) (index slot : Nat) (hint : Hint K) : Prop where
  held : client.tables.hint? slot = some hint
  through : hint.elementAt (client.params.chunkOf index) client.params.chunkSize = index
  first : ∀ earlier < slot, ∀ other, client.tables.hint? earlier = some other →
    other.elementAt (client.params.chunkOf index) client.params.chunkSize ≠ index

/-- What the retrieval of an index does, over a transport that does as it likes. -/
structure Retrieves (client : Client σ K) (index : Nat) (respond : Bytes → Reply Bytes) : Prop where
  /-- A word that is known is yielded at once, whatever is pending. -/
  known : ∀ {word}, client.cached index = some word →
    retrieve index respond client = ⟨.ok word, client, []⟩
  /-- A query that is pending stays so. -/
  busy : ∀ {query}, client.cached index = none → client.pending = some query →
    retrieve index respond client = ⟨.error .queryPending, client, []⟩
  past : client.cached index = none → client.pending = none → client.params.dbSize ≤ index →
    retrieve index respond client
      = ⟨.error (.indexOutOfRange index client.params.dbSize), client, []⟩
  missed : client.cached index = none → client.pending = none → index < client.params.dbSize →
    (∀ slot hint, client.tables.hint? slot = some hint →
      hint.elementAt (client.params.chunkOf index) client.params.chunkSize ≠ index) →
    retrieve index respond client
      = ⟨.error (.hintMiss index), client, [.uncovered index (client.params.chunkOf index)]⟩
  sent : ∀ {slot hint}, client.cached index = none → client.pending = none →
    index < client.params.dbSize → client.Serves index slot hint →
    ∃ offsets, offsets = (hint.trace client.params.chunkCount client.params.chunkSize).eraseIdx
        (client.params.chunkOf index)
      ∧ offsets.length = client.params.chunkCount - 1
      ∧ (∀ offset ∈ offsets, offset < client.params.chunkSize)
      ∧ client.Exchanged ⟨index, client.params.chunkOf index, slot⟩ hint
          (respond (encodeOffsets offsets)) (retrieve index respond client)

variable {client : Client σ K} {query : Query}

/-! ### The exchange -/

section Exchange

variable {hint : Hint K} {reply : Reply Bytes} {response : Bytes} {parities : List UInt64}
  {respond : Bytes → Reply Bytes} {bytes : Bytes} {word : UInt64} {cause : Error}

omit [Prf K] in
theorem answer_awaiting (held : client.tables.hint? query.slot = some hint) {parity : UInt64}
    (length : parities.length = client.params.chunkCount)
    (here : parities[query.chunk]? = some parity) :
    (client.awaiting query).answer query parities = .ok (parity ^^^ hint.parity) :=
  answer_of_pending (client.pending_awaiting query) held length here

omit [Prf K] in
/-- A client that has given up its query is the one that made it, but for the slot. -/
theorem retired_awaiting (idle : client.pending = none) :
    (client.awaiting query).retired query
      = { client with tables := client.tables.retire query.slot } := by
  rw [idle]
  rfl

omit [Prf K] in
/-- As many parities as there are chunks leave a word. -/
theorem heard_of_whole (held : client.tables.hint? query.slot = some hint)
    (within : query.chunk < client.params.chunkCount) (told : reply.result = .ok response)
    (decoded : Words.decode response = .ok parities)
    (length : parities.length = client.params.chunkCount) :
    ∃ parity, parities[query.chunk]? = some parity
      ∧ (client.awaiting query).heard query reply = .ok (parity ^^^ hint.parity) := by
  have here := List.getElem?_eq_getElem (Nat.lt_of_lt_of_eq within length.symm)
  exact ⟨_, here, (heard_of_decoded told decoded).trans (answer_awaiting held length here)⟩

omit [Prf K] in
theorem heard_of_miscount (held : client.tables.hint? query.slot = some hint)
    (told : reply.result = .ok response) (decoded : Words.decode response = .ok parities)
    (other : parities.length ≠ client.params.chunkCount) :
    (client.awaiting query).heard query reply
      = .error (.parityCount client.params.chunkCount parities.length) := by
  rw [heard_of_decoded told decoded]
  exact answer_of_miscount (client.pending_awaiting query) held other

omit [Prf K] in
/-- No reply is looked up past its end: parities that are as many as there are chunks reach the
chunk of the query. -/
theorem heard_ne_fault (held : client.tables.hint? query.slot = some hint)
    (within : query.chunk < client.params.chunkCount) (broken : Fault) :
    (client.awaiting query).heard query reply ≠ .fault broken := by
  cases told : reply.result with
  | error cause =>
    rw [heard_of_error told]
    simp
  | ok response =>
    cases decoded : Words.decode response with
    | error cause =>
      rw [heard_of_undecodable told decoded]
      simp
    | ok parities =>
      by_cases length : parities.length = client.params.chunkCount
      · obtain ⟨parity, -, heard⟩ := heard_of_whole held within told decoded length
        rw [heard]
        simp
      · rw [heard_of_miscount held told decoded length]
        simp

omit [Prf K] in
/-- Whatever error is heard, the query is given up and its hint with it. -/
theorem guarded_of_heard_error (idle : client.pending = none)
    (heard : (client.awaiting query).heard query (respond bytes) = .error cause) :
    discardOnError (exchange respond bytes) (client.awaiting query)
      = client.gaveUp query (respond bytes).events cause := by
  rw [guarded_exchange (client.pending_awaiting query), heard]
  exact congrArg (Step.mk _ · _) (retired_awaiting idle)

omit [Prf K] in
/-- Whatever is heard, the query is pending no more. -/
theorem guarded_idle (idle : client.pending = none)
    (held : client.tables.hint? query.slot = some hint)
    (within : query.chunk < client.params.chunkCount) :
    (discardOnError (exchange respond bytes) (client.awaiting query)).state.pending = none := by
  cases heard : (client.awaiting query).heard query (respond bytes) with
  | ok word =>
    rcases answered_of_heard (client.pending_awaiting query) heard with
      ⟨backup, position, -, -, left⟩ | ⟨-, -, left⟩
    · rw [left]
      rfl
    · rw [left]
      rfl
  | error cause =>
    rw [guarded_of_heard_error idle heard]
    exact idle
  | fault broken => exact absurd heard (heard_ne_fault held within broken)

omit [Prf K] in
/-- The word that is heard is kept, whether there is a backup hint left or not. -/
theorem guarded_keeps (heard : (client.awaiting query).heard query (respond bytes) = .ok word) :
    (discardOnError (exchange respond bytes) (client.awaiting query)).state.cached query.index
      = some word := by
  rcases answered_of_heard (client.pending_awaiting query) heard with
    ⟨backup, position, -, -, left⟩ | ⟨-, -, left⟩
  · rw [left]
    exact (Cache.get?_insert ..).trans (if_pos rfl)
  · rw [left]
    exact (Cache.get?_insert ..).trans (if_pos rfl)

theorem Consistent.guarded_refreshes (consistent : client.Consistent)
    (idle : client.pending = none) (within : query.chunk < client.params.chunkCount)
    (heard : (client.awaiting query).heard query (respond bytes) = .ok word)
    (some_left : 0 < client.remainingBackups query.chunk) :
    ∃ position backup, client.consumed[query.chunk]? = some position
      ∧ client.tables.backup? query.chunk position = some backup
      ∧ discardOnError (exchange respond bytes) (client.awaiting query) = {
          outcome := .ok word
          state := { client with
            cache := client.cache.insert query.index word
            tables := (client.tables.takeBackup query.chunk position).install query.slot
              ((backup.program query.index).xorParity word)
            consumed := client.consumed.modify query.chunk (· + 1) }
          events := (respond bytes).events } := by
  rw [consistent.remainingBackups_eq within] at some_left
  obtain ⟨backup, next⟩ := consistent.nextBackup_ok within (Nat.lt_of_sub_pos some_left)
  -- A query that is pending has no part in which backup hint comes next.
  have taken : (client.awaiting query).nextBackup query.chunk
      = some (backup, client.used query.chunk) := next
  rw [guarded_exchange (client.pending_awaiting query), heard]
  dsimp only
  rw [taken]
  refine ⟨client.used query.chunk, backup, consistent.consumed_eq within,
    (nextBackup_of_some next).2.2, ?_⟩
  rw [idle]
  rfl

theorem Consistent.guarded_exhausts (consistent : client.Consistent)
    (idle : client.pending = none) (within : query.chunk < client.params.chunkCount)
    (heard : (client.awaiting query).heard query (respond bytes) = .ok word)
    (none_left : client.remainingBackups query.chunk = 0) :
    discardOnError (exchange respond bytes) (client.awaiting query) = {
      outcome := .error (.backupsExhausted query.chunk query.index)
      state := { client with
        cache := client.cache.insert query.index word
        tables := client.tables.retire query.slot }
      events := (respond bytes).events ++ [.exhausted query.chunk query.index] } := by
  rw [consistent.remainingBackups_eq within] at none_left
  have ended : (client.awaiting query).nextBackup query.chunk = none :=
    nextBackup_of_used (Nat.le_of_sub_eq_zero none_left)
  rw [guarded_exchange (client.pending_awaiting query), heard]
  dsimp only
  rw [ended, idle]
  rfl

end Exchange

theorem Consistent.exchanged (consistent : client.Consistent) (selects : client.Selects query)
    {hint : Hint K} (held : client.tables.hint? query.slot = some hint)
    (respond : Bytes → Reply Bytes) (bytes : Bytes) :
    client.Exchanged query hint (respond bytes)
      (discardOnError (exchange respond bytes) (client.awaiting query)) := by
  have idle := selects.idle
  have within := selects.awaits.chunk_lt consistent.valid
  refine ⟨guarded_idle idle held within, ?_, ?_, ?_, ?_, ?_, ?_⟩
  · intro cause told
    exact guarded_of_heard_error idle (heard_of_error told)
  · intro response cause told decoded
    have heard : (client.awaiting query).heard query (respond bytes) = .error cause :=
      heard_of_undecodable told decoded
    exact ⟨Words.undecodable_of_error decoded, guarded_of_heard_error idle heard⟩
  · intro response parities told decoded other
    exact guarded_of_heard_error idle (heard_of_miscount held told decoded other)
  · intro response parities told decoded length
    obtain ⟨parity, here, heard⟩ := heard_of_whole held within told decoded length
    exact ⟨parity, here, guarded_keeps heard⟩
  · intro response parities told decoded length some_left
    obtain ⟨parity, here, heard⟩ := heard_of_whole held within told decoded length
    obtain ⟨position, backup, used, there, left⟩ :=
      consistent.guarded_refreshes idle within heard some_left
    exact ⟨parity, position, backup, here, used, there, left⟩
  · intro response parities told decoded length none_left
    obtain ⟨parity, here, heard⟩ := heard_of_whole held within told decoded length
    exact ⟨parity, here, consistent.guarded_exhausts idle within heard none_left⟩

/-! ### Retrievals -/

theorem Serves.select {index slot : Nat} {hint : Hint K} (serves : client.Serves index slot hint)
    (idle : client.pending = none) (inRange : index < client.params.dbSize)
    (fresh : client.cached index = none) (pos : 0 < client.params.chunkSize) :
    (select index client).outcome = .ok ⟨index, client.params.chunkOf index, slot⟩ := by
  have hit : client.tables.firstThrough index (client.params.chunkOf index)
      client.params.chunkSize = some slot :=
    Tables.firstThrough_eq_some_iff.mpr ⟨⟨hint, serves.held, serves.through⟩, serves.first⟩
  rw [select_of_unknown idle inRange fresh pos, hit]

theorem Consistent.sent (consistent : client.Consistent) {index slot : Nat} {hint : Hint K}
    (serves : client.Serves index slot hint) (idle : client.pending = none)
    (inRange : index < client.params.dbSize) (fresh : client.cached index = none)
    (respond : Bytes → Reply Bytes) :
    client.Exchanged ⟨index, client.params.chunkOf index, slot⟩ hint
      (respond (encodeOffsets ((hint.trace client.params.chunkCount
        client.params.chunkSize).eraseIdx (client.params.chunkOf index))))
      (retrieve index respond client) := by
  have pos := consistent.valid.chunkSize_pos
  have selected := serves.select idle inRange fresh pos
  obtain ⟨selects, -, -⟩ := select_of_ok selected
  have prepared := prepare_of_pending
    (client.pending_awaiting ⟨index, client.params.chunkOf index, slot⟩) serves.held pos
    (consistent.valid.chunkOf_lt inRange)
  have asked : (Client.query index client).outcome = .ok (encodeOffsets
      ((hint.trace client.params.chunkCount client.params.chunkSize).eraseIdx
        (client.params.chunkOf index))) := by
    rw [query_of_select_ok selected, prepared]
    rfl
  rw [retrieve_of_query_ok respond selected asked]
  exact consistent.exchanged selects serves.held respond _

theorem Consistent.retrieves (consistent : client.Consistent) (index : Nat)
    (respond : Bytes → Reply Bytes) : client.Retrieves index respond where
  known := retrieve_of_cached respond
  busy fresh pending := retrieve_of_select_error respond fresh (select_of_pending pending index)
  past fresh idle past := retrieve_of_select_error respond fresh (select_of_past idle past)
  missed fresh idle inRange never := by
    refine retrieve_of_select_error respond fresh ?_
    rw [select_of_unknown idle inRange fresh consistent.valid.chunkSize_pos,
      Tables.firstThrough_eq_none_iff.mpr never]
  sent {slot hint} fresh idle inRange serves := by
    have within := consistent.valid.chunkOf_lt inRange
    obtain ⟨length, below⟩ := hint.puncture_fits consistent.valid.chunkSize_pos within
    exact ⟨_, rfl, length, below, consistent.sent serves idle inRange fresh respond⟩

/-- **Retrieval over any transport.**  Whatever was asked of a session before and whatever
its servers answered, a retrieval yields what is known, refuses without a query, or makes
one query and ends it. -/
theorem retrieval [KeySource σ K] [RandomSource σ] {size : Nat} {p : Params}
    (derived : p.Derived size) {source : σ} {stream : List Chunk}
    (ready : (setup (K := K) p source stream).outcome = .ok ()) (run : List Operation)
    (index : Nat) (respond : Bytes → Reply Bytes) :
    let last := (setup (K := K) p source stream).state.after run
    last.params = p ∧ last.Retrieves index respond :=
  ⟨(params_after _ run).trans (setup_params ready),
    (consistent_after (consistent_setup derived.valid ready) run).retrieves index respond⟩

/-- A transport that fails with an error of the client's own: the query for index 0 is
given up, with the hint that would have served it. -/
theorem retrieval_of_failing_transport :
    let respond : Bytes → Reply Bytes := fun _ => ⟨.error (.backupsExhausted 0 0), []⟩
    let step := retrieve 0 respond Small.client
    step = ⟨.error (.backupsExhausted 0 0),
        { Small.client with tables := Small.client.tables.retire 0 }, [.discarded 0]⟩ := by
  intro respond step
  have serves : Small.client.Serves 0 0 ⟨⟨[0, 1]⟩, 34, none⟩ :=
    ⟨by decide, by decide, fun earlier past => absurd past (Nat.not_lt_zero earlier)⟩
  obtain ⟨-, retrieves⟩ := retrieval Small.derived Small.setup_ok [] 0 respond
  obtain ⟨offsets, -, -, -, exchanged⟩ := retrieves.sent (by decide) (by decide) (by decide) serves
  exact exchanged.failed rfl

end Client

end PrivateRetrieval
