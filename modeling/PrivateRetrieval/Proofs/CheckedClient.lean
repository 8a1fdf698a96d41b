/-
A client never leaves its bounds.

Where a client looks something up, the position comes from somewhere else: from the query
that it has kept, from a counter, from the key of a hint, or from the length of an answer.
The invariant of a session ties these to the tables, so that the entry is there:

* **`Checked.Agrees`** — an action does the same with its partial steps made explicit; this goes
  through binds (`Agrees.bind`) and past failures that are caught (`Agrees.attempt`);
* **`Checked.absorbStream_eq`** — a chunk is read only if it has the right length, and chunks
  are counted no further than one past the last;
* **`Checked.Bounded`** — fields that agree, and numbers that fit into words;
* **`Checked.nextBackup_eq`** — the backup hints of all chunks stand in one row, and the counter
  of a chunk finds its next one there;
* **`Checked.act_agrees`** — so every operation agrees, on every client within its bounds.
-/
import PrivateRetrieval.Proofs.CheckedServer
import PrivateRetrieval.Proofs.Representation

namespace PrivateRetrieval.Checked

variable {α β σ K : Type}

/-! ### Actions that agree -/

/-- In this state an action with its partial steps made explicit does what it does without, and
comes to no fault but that of a draw without end. -/
structure Agrees (checked running : Client.Act σ K α) (client : Client σ K) : Prop where
  same : checked client = running client
  sure : ∀ cause, (running client).outcome = .fault cause → cause = .endlessDraws

namespace Agrees

variable {client : Client σ K}

/-- To come to no fault at all is more than enough. -/
theorem of_and {checked running : Client.Act σ K α}
    (both : checked client = running client
      ∧ ∀ cause, (running client).outcome ≠ .fault cause) : Agrees checked running client :=
  ⟨both.1, fun cause failed => absurd failed (both.2 cause)⟩

theorem read {f g : Client σ K → Outcome Error α} (same : f client = g client)
    (sure : ∀ cause, g client ≠ .fault cause) : Agrees (Action.read f) (Action.read g) client :=
  ⟨by rw [Action.read, Action.read, same], fun cause failed => absurd failed (sure cause)⟩

theorem done {outcome outcome' : Outcome Error α} (same : outcome = outcome')
    (sure : ∀ cause, outcome' ≠ .fault cause) :
    Agrees (Action.done outcome) (Action.done outcome') client :=
  read same sure

theorem bind {checked running : Client.Act σ K α} {next next' : α → Client.Act σ K β}
    (first : Agrees checked running client)
    (rest : ∀ value, (running client).outcome = .ok value →
      Agrees (next value) (next' value) (running client).state) :
    Agrees (checked >>= next) (running >>= next') client := by
  have same := Action.bind_congr_left first.same next
  cases outcome : (running client).outcome with
  | ok value =>
    obtain ⟨later, sure⟩ := rest value outcome
    have eq : (running >>= next) client = (running >>= next') client := by
      rw [Action.bind_of_ok outcome, Action.bind_of_ok outcome, later]
    refine ⟨same.trans eq, fun cause failed => ?_⟩
    rw [Action.bind_of_ok outcome] at failed
    exact sure cause failed
  | error cause =>
    refine ⟨?_, fun other failed => ?_⟩
    · rw [same, Action.bind_of_error outcome, Action.bind_of_error outcome]
    · rw [Action.bind_of_error outcome] at failed
      exact absurd failed (by simp)
  | fault cause =>
    refine ⟨?_, fun other failed => ?_⟩
    · rw [same, Action.bind_of_fault outcome, Action.bind_of_fault outcome]
    · rw [Action.bind_of_fault outcome] at failed
      cases failed
      exact first.sure cause outcome

theorem pure (value : α) :
    Agrees (Pure.pure value : Client.Act σ K α) (Pure.pure value) client :=
  ⟨rfl, fun cause failed => absurd failed (by rintro ⟨⟩)⟩

theorem map {checked running : Client.Act σ K α} (agrees : Agrees checked running client)
    (f : α → β) : Agrees (f <$> checked) (f <$> running) client :=
  agrees.bind fun value _ => .pure (f value)

theorem attempt {checked running : Client.Act σ K α} (agrees : Agrees checked running client) :
    Agrees checked.attempt running.attempt client := by
  obtain ⟨same, sure⟩ := agrees
  refine ⟨by rw [Action.attempt, Action.attempt, same], fun cause failed => ?_⟩
  cases outcome : (running client).outcome with
  | ok value =>
    rw [Action.attempt_of_ok outcome] at failed
    exact absurd failed (by simp)
  | error other =>
    rw [Action.attempt_of_error outcome] at failed
    exact absurd failed (by simp)
  | fault other =>
    rw [Action.attempt_of_fault outcome] at failed
    exact sure cause (outcome.trans (congrArg Outcome.fault (Outcome.fault.inj failed)))

end Agrees

/-! ### Hints -/

section Hint

variable [Prf K] {chunkSize : Nat}

theorem offsetAt_eq (hint : Hint K) (chunk : Nat) (pos : 0 < chunkSize) :
    offsetAt hint chunk chunkSize = .ok (hint.offsetAt chunk chunkSize) := by
  have keyed : keyOffset hint.key chunk chunkSize = .ok (Hint.keyOffset hint.key chunk chunkSize) :=
    remainder_of_pos pos _
  rw [offsetAt, Hint.offsetAt]
  cases hint.point with
  | none => exact keyed
  | some point =>
    dsimp only
    rw [quotient_of_pos pos, ok_bind]
    by_cases own : point / chunkSize = chunk
    · rw [if_pos own, if_pos own, remainder_of_pos pos]
    · rw [if_neg own, if_neg own, keyed]

theorem indexAt_eq (hint : Hint K) {chunk : Nat} (pos : 0 < chunkSize)
    (fits : chunk * chunkSize + hint.offsetAt chunk chunkSize < UInt64.size) :
    indexAt hint chunk chunkSize = .ok (hint.offsetAt chunk chunkSize + chunk * chunkSize) := by
  rw [indexAt, offsetAt_eq hint chunk pos, ok_bind, product_of_lt (by omega), ok_bind,
    sum_of_lt (by omega)]

theorem elementAt_eq (hint : Hint K) {chunk : Nat} (pos : 0 < chunkSize)
    (fits : chunk * chunkSize + hint.offsetAt chunk chunkSize < UInt64.size) :
    elementAt hint chunk chunkSize = .ok (hint.elementAt chunk chunkSize) := by
  rw [elementAt, Hint.elementAt]
  cases hint.point with
  | none => exact indexAt_eq hint pos fits
  | some point =>
    dsimp only
    rw [quotient_of_pos pos, ok_bind]
    by_cases own : point / chunkSize = chunk
    · rw [if_pos own, if_pos own]
      rfl
    · rw [if_neg own, if_neg own, indexAt_eq hint pos fits]

theorem trace_eq (hint : Hint K) (chunkCount : Nat) (pos : 0 < chunkSize) :
    trace hint chunkCount chunkSize = .ok (hint.trace chunkCount chunkSize) :=
  each_of_ok fun chunk _ => offsetAt_eq hint chunk pos

theorem firstThrough_eq (t : Tables K) (index : Nat) {chunk : Nat} (pos : 0 < chunkSize)
    (fits : chunk * chunkSize + chunkSize < UInt64.size) :
    firstThrough t index chunk chunkSize = .ok (t.firstThrough index chunk chunkSize) := by
  have found : each (passes index chunk chunkSize) t.primary
      = .ok (t.primary.map fun slot => slot.any (·.elementAt chunk chunkSize = index)) := by
    refine each_of_ok fun slot _ => ?_
    cases slot with
    | none => rfl
    | some hint =>
      have below := hint.offsetAt_lt pos chunk
      rw [passes, elementAt_eq hint pos (by omega)]
      rfl
  rw [firstThrough, found, ok_bind, List.findIdx?_map]
  rfl

theorem absorbSlot_eq {chunk : Nat} {words : Chunk} (pos : 0 < chunkSize)
    (length : words.length = chunkSize) (slot : Slot K) :
    absorbSlot chunk words chunkSize slot = .ok (slot.map (·.absorb chunk words chunkSize)) := by
  cases slot with
  | none => rfl
  | some hint =>
    have below : hint.offsetAt chunk chunkSize < words.length := by
      rw [length]
      exact hint.offsetAt_lt pos chunk
    have there : words[hint.offsetAt chunk chunkSize]?
        = some (words.getD (hint.offsetAt chunk chunkSize) 0) := by
      rw [List.getD_eq_getElem?_getD, List.getElem?_eq_getElem below, Option.getD_some]
    rw [absorbSlot, offsetAt_eq hint chunk pos, ok_bind, entry_of_getElem? there]
    rfl

theorem absorb_eq {p : Params} (valid : p.Valid) (chunk : Nat) {words : Chunk}
    (length : words.length = p.chunkSize) (t : Tables K) :
    absorb p chunk words t = t.absorb p chunk words := by
  have slots (slots : List (Slot K)) : each (absorbSlot chunk words p.chunkSize) slots
      = .ok (slots.map (·.map (·.absorb chunk words p.chunkSize))) :=
    each_of_ok fun slot _ => absorbSlot_eq valid.chunkSize_pos length slot
  rw [Tables.absorb_ok valid, absorb, slots, ok_bind,
    if_neg (Nat.ne_of_gt valid.backupsPerChunk_pos),
    each_of_ok (g := fun both =>
      if both.2 = chunk then both.1 else both.1.map (·.map (·.absorb chunk words p.chunkSize)))]
  · rw [ok_bind, Tables.absorbBackups, List.mapIdx_eq_zipIdx_map]
    rfl
  · rintro ⟨group, number⟩ -
    dsimp only
    split
    · rfl
    · exact slots group

/-- Chunks are counted as far as there are any, and one more. -/
theorem absorbStream_eq {p : Params} (valid : p.Valid) (small : p.dbSize < UInt64.size)
    (stream : List Chunk) {chunk : Nat} (within : chunk ≤ p.chunkCount) (t : Tables K) :
    absorbStream p chunk stream t = t.absorbStream p chunk stream
      ∧ ∀ cause, t.absorbStream p chunk stream ≠ .fault cause := by
  have counted : p.chunkCount + 1 < UInt64.size := by
    have short := valid.chunkCount_lt small
    simp only [UInt32.size, UInt64.size] at short ⊢
    omega
  -- A chunk past the last one ends the pass, so that the counter stays within its bound.
  induction stream generalizing chunk t with
  | nil =>
    rw [absorbStream, Tables.absorbStream]
    refine ⟨rfl, fun cause => ?_⟩
    split <;> simp
  | cons words rest ih =>
    rw [absorbStream, Tables.absorbStream]
    by_cases past : p.chunkCount ≤ chunk
    · rw [if_pos past, if_pos past, sum_of_lt (by omega)]
      exact ⟨rfl, by simp⟩
    rw [if_neg past, if_neg past]
    by_cases length : words.length = p.chunkSize
    · rw [if_neg (fun differs => differs length), if_neg (fun differs => differs length),
        absorb_eq valid chunk length, Tables.absorb_ok valid, ok_bind, sum_of_lt (by omega),
        ok_bind]
      exact ih (Nat.lt_of_not_le past) _
    · rw [if_pos length, if_pos length]
      exact ⟨rfl, by simp⟩

end Hint

/-! ### One table for all groups -/

/-- In a row of groups of one size, a place in a group is found behind all groups before. -/
theorem flatten_getElem? {groups : List (List α)} {size : Nat}
    (sizes : ∀ entries ∈ groups, entries.length = size) {group position : Nat}
    (below : position < size) :
    groups.flatten[group * size + position]? = groups[group]?.bind (·[position]?) := by
  induction groups generalizing group with
  | nil => rfl
  | cons first rest ih =>
    have length := sizes first List.mem_cons_self
    rw [List.flatten_cons]
    cases group with
    | zero =>
      rw [Nat.zero_mul, Nat.zero_add, List.getElem?_append_left (by omega)]
      rfl
    | succ group =>
      have place : (group + 1) * size + position - first.length = group * size + position := by
        rw [Nat.succ_mul]
        omega
      rw [List.getElem?_append_right (by rw [Nat.succ_mul]; omega), place, List.getElem?_cons_succ]
      exact ih fun entries member => sizes entries (List.mem_cons_of_mem first member)

/-! ### Clients within their bounds -/

section Client

variable [Prf K]

/-- A client whose fields agree, and whose numbers are words. -/
structure Bounded (client : Client σ K) : Prop where
  consistent : client.Consistent
  grouped : client.tables.Grouped client.params
  small : client.params.dbSize < UInt64.size
  counted : client.params.backupCount < UInt64.size

section Changes

variable [KeySource σ K] {client : Client σ K}

theorem Bounded.change {peer : Peer σ K} {marks : List Milestone} {after : Client σ K}
    (bounded : Bounded client) (change : Client.Change peer client marks after) :
    Bounded after := by
  obtain ⟨consistent, grouped, small, counted⟩ := bounded
  refine ⟨change.consistent consistent, change.grouped grouped, ?_, ?_⟩
  · rw [change.params_eq]
    exact small
  · rw [change.params_eq]
    exact counted

/-- Nothing that happens in a session takes its client out of these bounds. -/
theorem Bounded.along {marks : List Milestone} {last : Client σ K} (bounded : Bounded client)
    (path : Client.Path Peer.any client marks last) : Bounded last :=
  path.invariant (fun change bounded => bounded.change change) bounded

end Changes

variable {client : Client σ K} {query : Query}

theorem remainingBackups_eq (bounded : Bounded client) (chunk : Nat) :
    remainingBackups client chunk = .ok (client.remainingBackups chunk) := by
  rw [remainingBackups, Client.remainingBackups]
  cases counted : client.consumed[chunk]? with
  | none => rfl
  | some used =>
    have within := bounded.consistent.consumed_length ▸ (List.getElem?_eq_some_iff.mp counted).1
    cases counted.symm.trans (bounded.consistent.consumed_eq within)
    exact difference_of_le (bounded.consistent.used_le chunk)

theorem select_agrees (bounded : Bounded client) (index : Nat) :
    Agrees (select index) (Client.select index) client := by
  have valid := bounded.consistent.valid
  have pos := valid.chunkSize_pos
  refine .of_and ?_
  rw [select, current, Action.read_bind, Client.select]
  dsimp only
  by_cases busy : client.pending.isSome = true
  · rw [if_pos busy, if_pos busy]
    exact ⟨rfl, by simp⟩
  rw [if_neg busy, if_neg busy]
  by_cases past : client.params.dbSize ≤ index
  · rw [if_pos past, if_pos past]
    exact ⟨rfl, by simp⟩
  rw [if_neg past, if_neg past]
  by_cases known : client.cache.contains index = true
  · rw [if_pos known, if_pos known]
    exact ⟨rfl, by simp⟩
  -- An index of the database is in one of its chunks, whose last index is a word.
  have fits := valid.chunk_end_lt bounded.small (valid.chunkOf_lt (Nat.lt_of_not_le past))
  rw [Params.chunkOf] at fits
  rw [if_neg known, if_neg known, if_neg (Nat.ne_of_gt pos), quotient_of_pos pos,
    Action.done_ok_bind, firstThrough_eq client.tables index pos fits, Action.done_ok_bind]
  cases hit : client.tables.firstThrough index (client.params.chunkOf index)
      client.params.chunkSize with
  | some slot =>
    rw [Params.chunkOf] at hit
    rw [hit]
    exact ⟨rfl, by simp⟩
  | none =>
    rw [Params.chunkOf] at hit
    rw [hit]
    exact ⟨rfl, by simp⟩

theorem randomQuery_agrees [RandomSource σ] [KeySource σ K] (bounded : Bounded client) :
    Agrees randomQuery Client.randomQuery client := by
  have pos := bounded.consistent.valid.dbSize_pos
  have selects (source : σ) (index : Nat) :
      Agrees (select index) (Client.select index) { client with source } := by
    have change : Client.Change Peer.any client [] { client with source } := .draw source
    exact select_agrees (bounded.change change) index
  -- Draws without end are the one fault that is left, and it is in both programs.
  suffices both : randomQuery client = Client.randomQuery client
      ∧ ∀ cause, (Client.randomQuery client).outcome = .fault cause → cause = .endlessDraws from
    ⟨both.1, both.2⟩
  rw [randomQuery, Client.randomQuery, current, Action.read_bind]
  dsimp only
  by_cases busy : client.pending.isSome = true
  · rw [if_pos busy, if_pos busy]
    exact ⟨rfl, by simp⟩
  rw [if_neg busy, if_neg busy]
  by_cases full : client.params.dbSize ≤ client.cache.size
  · rw [if_pos full, if_pos full]
    exact ⟨rfl, by simp⟩
  rw [if_neg full, if_neg full, if_neg (Nat.ne_of_gt pos)]
  cases drawn : drawUncached client.cache client.params.dbSize drawLimit client.source with
  | mk found source =>
    cases found with
    | none => exact ⟨rfl, fun cause failed => (Outcome.fault.inj failed).symm⟩
    | some index =>
      obtain ⟨same, sure⟩ := selects source index
      refine ⟨?_, sure⟩
      rw [Action.update_bind]
      exact same

/-! ### Queries -/

theorem pendingHint_eq (bounded : Bounded client) (query : Query) :
    pendingHint client query = client.pendingHint query := by
  by_cases pending : client.pending = some query
  · obtain ⟨hint, held, -⟩ := (bounded.consistent.awaits pending).held
    have there : client.tables.primary[query.slot]? = some (some hint) :=
      Option.join_eq_some_iff.mp held
    rw [pendingHint, if_neg (fun differs => differs pending), entry_of_getElem? there,
      Client.pendingHint_of_pending pending held]
    rfl
  · rw [pendingHint, if_pos pending, Client.pendingHint_of_ne pending]

theorem prepare_eq (bounded : Bounded client) (query : Query) :
    prepare client query = client.prepare query ∧ ∀ cause, client.prepare query ≠ .fault cause := by
  have pos := bounded.consistent.valid.chunkSize_pos
  rw [prepare, pendingHint_eq bounded]
  by_cases pending : client.pending = some query
  · have awaits := bounded.consistent.awaits pending
    have within := awaits.chunk_lt bounded.consistent.valid
    obtain ⟨hint, held, -⟩ := awaits.held
    rw [Client.pendingHint_of_pending pending held, ok_bind, trace_eq hint _ pos, ok_bind,
      remove_of_lt (by rwa [hint.length_trace]), Client.prepare_of_pending pending held pos within]
    exact ⟨rfl, by simp⟩
  · rw [Client.pendingHint_of_ne pending, Client.prepare_of_ne pending]
    exact ⟨rfl, by simp⟩

/-- The offsets of a query are few enough to be sent. -/
theorem length_prepared (bounded : Bounded client) {offsets : List Nat}
    (prepared : client.prepare query = .ok offsets) :
    (offsets.map UInt64.ofNat).length < UInt32.size + 2 := by
  have valid := bounded.consistent.valid
  have short := valid.chunkCount_lt bounded.small
  rw [List.length_map]
  by_cases pending : client.pending = some query
  · have awaits := bounded.consistent.awaits pending
    obtain ⟨hint, held, -⟩ := awaits.held
    rw [Client.prepare_of_pending pending held valid.chunkSize_pos (awaits.chunk_lt valid)]
      at prepared
    cases prepared
    have length := List.length_eraseIdx_le (hint.trace client.params.chunkCount
      client.params.chunkSize) query.chunk
    rw [hint.length_trace] at length
    omega
  · rw [Client.prepare_of_ne pending] at prepared
    exact absurd prepared (by simp)

theorem query_agrees [KeySource σ K] [RandomSource σ] (bounded : Bounded client) (index : Nat) :
    Agrees (Checked.query index) (Client.query index) client := by
  refine (select_agrees bounded index).bind fun query _ => ?_
  have waiting : Bounded (Client.select index client).state :=
    bounded.along (Operation.path_select client index)
  obtain ⟨same, sure⟩ := prepare_eq waiting query
  refine (Agrees.read same sure).bind fun offsets prepared => ?_
  exact .done (encode_of_few (length_prepared waiting prepared)) (by simp)

theorem randomQueryBytes_agrees [KeySource σ K] [RandomSource σ] (bounded : Bounded client) :
    Agrees randomQueryBytes Client.randomQueryBytes client := by
  refine (randomQuery_agrees bounded).bind fun query _ => ?_
  have waiting : Bounded (Client.randomQuery client).state :=
    bounded.along (Operation.path_randomQuery client)
  obtain ⟨same, sure⟩ := prepare_eq waiting query
  refine (Agrees.read same sure).bind fun offsets prepared => ?_
  have sent : Agrees (Action.done (encode (offsets.map UInt64.ofNat)))
      (Pure.pure (encodeOffsets offsets)) (Client.randomQuery client).state :=
    .done (encode_of_few (length_prepared waiting prepared)) (by simp)
  exact sent.map fun bytes => (query.index, bytes)

/-! ### Answers -/

theorem answer_eq (bounded : Bounded client) (query : Query) (parities : List UInt64) :
    answer client query parities = client.answer query parities
      ∧ ∀ cause, client.answer query parities ≠ .fault cause := by
  rw [answer, pendingHint_eq bounded, Client.answer]
  by_cases pending : client.pending = some query
  · have awaits := bounded.consistent.awaits pending
    have within := awaits.chunk_lt bounded.consistent.valid
    obtain ⟨hint, held, -⟩ := awaits.held
    rw [Client.pendingHint_of_pending pending held, ok_bind, Outcome.bind]
    -- There is a parity for every chunk, and the query is for one of the chunks.
    by_cases length : parities.length = client.params.chunkCount
    · have there := List.getElem?_eq_getElem (Nat.lt_of_lt_of_eq within length.symm)
      rw [if_neg (fun differs => differs length), if_neg (fun differs => differs length),
        entry_of_getElem? there, there]
      exact ⟨rfl, by simp⟩
    · rw [if_pos length, if_pos length]
      exact ⟨rfl, by simp⟩
  · rw [Client.pendingHint_of_ne pending]
    exact ⟨rfl, by simp [Outcome.bind]⟩

theorem nextBackup_eq (bounded : Bounded client) {chunk : Nat}
    (within : chunk < client.params.chunkCount) :
    nextBackup client chunk (client.used chunk)
      = .ok ((client.nextBackup chunk).map Prod.fst) := by
  rw [nextBackup]
  by_cases left : client.used chunk < client.params.backupsPerChunk
  · obtain ⟨hint, found⟩ := bounded.consistent.nextBackup_ok within left
    obtain ⟨-, -, there⟩ := Client.nextBackup_of_some found
    have sizes : ∀ slots ∈ client.tables.backups, slots.length = client.params.backupsPerChunk := by
      intro slots member
      obtain ⟨group, held⟩ := List.mem_iff_getElem?.mp member
      exact bounded.grouped held
    have place := (flatten_getElem? sizes left).trans (Option.join_eq_some_iff.mp there)
    -- The groups before are all of the same size, and there are fewer of them than chunks.
    have fits : chunk * client.params.backupsPerChunk + client.params.backupsPerChunk
        < UInt64.size := by
      refine Nat.lt_of_le_of_lt ?_ bounded.counted
      rw [← Nat.succ_mul, Params.backupCount, Nat.mul_comm client.params.backupsPerChunk]
      exact Nat.mul_le_mul_right _ within
    rw [if_pos left, product_of_lt (by omega), ok_bind, sum_of_lt (by omega), ok_bind,
      entry_of_getElem? place, found]
    rfl
  · rw [if_neg left, Client.nextBackup_of_used (Nat.le_of_not_lt left)]
    rfl

/-- The counter of a chunk goes up to the number of its backup hints. -/
theorem used_succ_lt (bounded : Bounded client) {chunk : Nat}
    (left : client.used chunk < client.params.backupsPerChunk) :
    client.used chunk + 1 < UInt64.size := by
  have pos := bounded.consistent.valid.chunkCount_pos
  have counted := bounded.counted
  rw [Params.backupCount] at counted
  have many := Nat.le_mul_of_pos_right client.params.backupsPerChunk pos
  omega

theorem refresh_agrees (bounded : Bounded client)
    (within : query.chunk < client.params.chunkCount)
    (room : query.slot < client.tables.primary.length) (word : UInt64) :
    Agrees (refresh query word) (Client.refresh query word) client := by
  have counter := bounded.consistent.consumed_eq within
  refine .of_and ?_
  rw [refresh, current, Action.read_bind]
  dsimp only
  rw [entry_of_getElem? counter, Action.done_ok_bind, nextBackup_eq bounded within,
    Action.done_ok_bind, Client.refresh]
  cases next : client.nextBackup query.chunk with
  | some found =>
    obtain ⟨hint, position⟩ := found
    obtain ⟨position_eq, left, -⟩ := Client.nextBackup_of_some next
    obtain rfl : position = client.used query.chunk := position_eq
    have place : query.slot
        < (client.tables.takeBackup query.chunk (client.used query.chunk)).primary.length := room
    have counted : query.chunk < client.consumed.length := by
      rwa [bounded.consistent.consumed_length]
    -- One program writes the next number over the counter, the other modifies it.
    have more : client.consumed.set query.chunk (client.used query.chunk + 1)
        = client.consumed.modify query.chunk (· + 1) := by
      rw [List.modify_eq_set, counter]
      rfl
    dsimp only [Option.map_some]
    rw [put_of_lt place, Action.done_ok_bind, sum_of_lt (used_succ_lt bounded left),
      Action.done_ok_bind, put_of_lt counted, Action.done_ok_bind, more]
    exact ⟨rfl, by simp⟩
  | none =>
    dsimp only [Option.map_none]
    rw [put_of_lt room, Action.done_ok_bind]
    exact ⟨rfl, by simp⟩

/-- To keep a word ends the query, and touches nothing else that bounds are about. -/
theorem Bounded.settled (bounded : Bounded client) (query : Query) (word : UInt64) :
    Bounded (client.settled query word) := by
  obtain ⟨consistent, grouped, small, counted⟩ := bounded
  refine ⟨⟨consistent.valid, consistent.primary_length, consistent.backups_length,
    consistent.consumed_length, consistent.used_le, consistent.backup_isSome, ?_⟩, grouped, small,
    counted⟩
  exact fun pending => absurd pending (by simp [Client.settled])

theorem recover_agrees (bounded : Bounded client) (query : Query) (parities : List UInt64) :
    Agrees (recover query parities) (Client.recover query parities) client := by
  obtain ⟨same, sure⟩ := answer_eq bounded query parities
  refine (Agrees.read same sure).bind fun word answered => ?_
  obtain ⟨pending, -, hint, -, held, -⟩ := Client.answer_of_ok answered
  have within := (bounded.consistent.awaits pending).chunk_lt bounded.consistent.valid
  have room := Tables.lt_length_of_hint? held
  have kept : Agrees (Client.settle query word) (Client.settle query word) client :=
    ⟨rfl, fun cause failed => absurd failed (by rintro ⟨⟩)⟩
  refine kept.bind fun _ _ => ?_
  exact (refresh_agrees (bounded.settled query word) within room word).map fun _ => word

theorem processResponse_agrees (bounded : Bounded client) (response : Bytes) :
    Agrees (processResponse response) (Client.processResponse response) client := by
  have asked : Agrees (Action.read Client.pendingQuery) (Action.read Client.pendingQuery) client :=
    .read rfl fun cause => by
      rw [Client.pendingQuery]
      split <;> simp
  refine asked.bind fun query _ => ?_
  have decoded : Agrees (Action.done (decode response))
      (Action.done (.ofExcept (Words.decode response))) client :=
    .done (decode_eq response) fun cause => by
      cases Words.decode response <;> simp [Outcome.ofExcept]
  exact decoded.bind fun parities _ => recover_agrees bounded query parities

theorem discard_agrees (bounded : Bounded client) : Agrees discard Client.discard client := by
  refine .of_and ?_
  rw [discard, current, Action.read_bind]
  dsimp only
  cases pending : client.pending with
  | none =>
    rw [Client.discard_of_idle pending]
    exact ⟨rfl, by simp⟩
  | some query =>
    obtain ⟨hint, held, -⟩ := (bounded.consistent.awaits pending).held
    dsimp only
    rw [put_of_lt (Tables.lt_length_of_hint? held), Action.done_ok_bind,
      Client.discard_of_pending pending]
    exact ⟨rfl, by simp⟩

/-- What is given up after a failure is what the failed action has left pending. -/
theorem discardOnError_agrees {checked running : Client.Act σ K α}
    (agrees : Agrees checked running client) (after : Bounded (running client).state) :
    Agrees (discardOnError checked) (Client.discardOnError running) client := by
  refine agrees.attempt.bind fun result _ => ?_
  rw [Action.attempt_state]
  cases result with
  | ok value => exact .pure value
  | error cause => exact (discard_agrees after).bind fun _ _ => .done rfl (by simp)

theorem exchange_agrees (bounded : Bounded client) (respond : Bytes → Reply Bytes)
    (bytes : Bytes) :
    Agrees (do
      let response ← (respond bytes).toAction
      processResponse response) (Client.exchange respond bytes) client := by
  have carried : Agrees (respond bytes).toAction (respond bytes).toAction client := by
    refine ⟨rfl, fun cause failed => ?_⟩
    rw [Reply.toAction] at failed
    cases told : (respond bytes).result with
    | ok response =>
      rw [told] at failed
      exact absurd failed (by simp [Outcome.ofExcept])
    | error other =>
      rw [told] at failed
      exact absurd failed (by simp [Outcome.ofExcept])
  exact carried.bind fun response _ => processResponse_agrees bounded response

theorem Bounded.exchanged [KeySource σ K] [RandomSource σ] (bounded : Bounded client)
    (respond : Bytes → Reply Bytes) (bytes : Bytes) :
    Bounded (Client.exchange respond bytes client).state := by
  cases told : (respond bytes).result with
  | error cause =>
    have failed : ((respond bytes).toAction client).outcome = .error cause := by
      rw [Reply.toAction, told]
      rfl
    rw [Client.exchange, Action.bind_of_error failed]
    exact bounded
  | ok response =>
    have carried : ((respond bytes).toAction client).outcome = .ok response := by
      rw [Reply.toAction, told]
      rfl
    have supplied := Operation.supplied_any client (.processResponse response)
    have after := bounded.along (Operation.path supplied)
    rw [Operation.act, Action.map_apply] at after
    rw [Client.exchange, Action.bind_of_ok carried]
    exact after

theorem retrieve_agrees [KeySource σ K] [RandomSource σ] (bounded : Bounded client) (index : Nat)
    (respond : Bytes → Reply Bytes) :
    Agrees (retrieve index respond) (Client.retrieve index respond) client := by
  have looked : Agrees (Action.read fun client => .ok (client.cached index))
      (Action.read fun client => .ok (client.cached index)) client := .read rfl (by simp)
  refine looked.bind fun found _ => ?_
  cases found with
  | some word => exact .pure word
  | none =>
    refine (query_agrees bounded index).bind fun bytes _ => ?_
    have waiting : Bounded (Client.query index client).state :=
      bounded.along (Operation.path_query client index)
    exact discardOnError_agrees (exchange_agrees waiting respond bytes)
      (waiting.exchanged respond bytes)

/-! ### Hints from a stream -/

theorem rebuild_eq [KeySource σ K] {p : Params} (params : client.params = p) (valid : p.Valid)
    (small : p.dbSize < UInt64.size) (counted : p.backupCount < UInt64.size)
    (stream : List Chunk) :
    rebuild stream client = Client.rebuild stream client
      ∧ ∀ cause, (Client.rebuild stream client).outcome ≠ .fault cause := by
  subst params
  obtain ⟨same, sure⟩ := absorbStream_eq valid small stream (Nat.zero_le _)
    (Tables.draw (K := K) client.params client.source).1
  rw [rebuild, current, Action.read_bind, Client.rebuild]
  dsimp only
  rw [product_of_lt counted, Action.done_ok_bind, Action.update_bind, same, Action.done_bind]
  cases absorbed : Tables.absorbStream client.params 0 stream
      (Tables.draw (K := K) client.params client.source).1 with
  | ok tables => exact ⟨rfl, by simp⟩
  | error cause => exact ⟨rfl, by simp⟩
  | fault cause => exact absurd absorbed (sure cause)

/-! ### Operations -/

theorem act_agrees [KeySource σ K] [RandomSource σ] (bounded : Bounded client)
    (operation : Operation) : Agrees (act operation) operation.act client := by
  cases operation with
  | select index => exact (select_agrees bounded index).map _
  | randomQuery => exact (randomQuery_agrees bounded).map _
  | query index => exact (query_agrees bounded index).map _
  | randomQueryBytes => exact (randomQueryBytes_agrees bounded).map _
  | prepare handle =>
    obtain ⟨same, sure⟩ := prepare_eq bounded handle
    have prepared : Agrees (Action.read (prepare · handle)) (Action.read (Client.prepare · handle))
      client := .read same sure
    exact prepared.map _
  | recover handle parities => exact (recover_agrees bounded handle parities).map _
  | processResponse response => exact (processResponse_agrees bounded response).map _
  | retrieve index respond => exact (retrieve_agrees bounded index respond).map _
  | discard => exact (discard_agrees bounded).map _
  | rebuild stream =>
    have built : Agrees (rebuild stream) (Client.rebuild stream) client :=
      .of_and (rebuild_eq rfl bounded.consistent.valid bounded.small bounded.counted stream)
    exact built.map _

end Client

end PrivateRetrieval.Checked
