/-
The fields of a session fit together.

Two tables, a counter for every chunk, a cache and at most one pending query are
kept apart, and no operation checks them against each other.  They agree all the
same, in every session and whatever the server sends:

* **`Client.Awaits`** — a pending query can be answered: its index is not cached,
  and its slot holds a hint through it;
* **`Client.Consistent`** — tables and counters have the sizes of the parameters, and
  of every group just the first backup hints have been taken;
* **`Client.Change.consistent`**, **`Client.consistent_after`** — every change, and so
  every run, keeps this.
-/
import PrivateRetrieval.Proofs.Path

namespace PrivateRetrieval

variable {σ K : Type} [Prf K] [KeySource σ K]

namespace Client

/-- A query that is pending and can be answered. -/
structure Awaits (client : Client σ K) (query : Query) : Prop where
  inRange : query.index < client.params.dbSize
  fresh : client.cached query.index = none
  chunk : query.chunk = client.params.chunkOf query.index
  held : ∃ hint, client.tables.hint? query.slot = some hint
    ∧ hint.elementAt query.chunk client.params.chunkSize = query.index

/-- Number of backup hints of a chunk that have been used. -/
def used (client : Client σ K) (chunk : Nat) : Nat := client.consumed.getD chunk 0

/-- What ties the fields of a session together. -/
structure Consistent (client : Client σ K) : Prop where
  valid : client.params.Valid
  primary_length : client.tables.primary.length = client.params.primaryCount
  backups_length : client.tables.backups.length = client.params.chunkCount
  consumed_length : client.consumed.length = client.params.chunkCount
  used_le : ∀ chunk, client.used chunk ≤ client.params.backupsPerChunk
  backup_isSome : ∀ group position, (client.tables.backup? group position).isSome
    ↔ group < client.params.chunkCount ∧ client.used group ≤ position
      ∧ position < client.params.backupsPerChunk
  awaits : ∀ {query}, client.pending = some query → client.Awaits query

variable {client : Client σ K} {query : Query}

omit [KeySource σ K] in
theorem Awaits.chunk_lt (awaits : client.Awaits query) (valid : client.params.Valid) :
    query.chunk < client.params.chunkCount := by
  rw [awaits.chunk]
  exact valid.chunkOf_lt awaits.inRange

omit [KeySource σ K] in
/-- A prepared query has an offset for every chunk but one, each within its chunk. -/
theorem Consistent.prepared_fits (consistent : client.Consistent)
    (pending : client.pending = some query) {offsets : List Nat}
    (prepared : client.prepare query = .ok offsets) :
    offsets.length = client.params.puncturedLength
      ∧ ∀ offset ∈ offsets, offset < client.params.chunkSize := by
  have awaits := consistent.awaits pending
  have pos := consistent.valid.chunkSize_pos
  have within := awaits.chunk_lt consistent.valid
  obtain ⟨hint, held, -⟩ := awaits.held
  cases (prepare_of_pending pending held pos within).symm.trans prepared
  exact hint.puncture_fits pos within

omit [KeySource σ K] in
theorem Selects.awaits (selects : client.Selects query) : (client.awaiting query).Awaits query :=
  ⟨selects.inRange, selects.fresh, selects.chunk, selects.held⟩

omit [Prf K] [KeySource σ K] in
theorem used_refreshed {word : UInt64} {hint : Hint K} {position : Nat}
    (within : query.chunk < client.consumed.length) (chunk : Nat) :
    (client.refreshed query word hint position).used chunk
      = if chunk = query.chunk then client.used chunk + 1 else client.used chunk := by
  simp only [used, refreshed, List.getD_eq_getElem?_getD]
  by_cases own : chunk = query.chunk
  · subst own
    rw [if_pos rfl, List.getElem?_modify_eq, List.getElem?_eq_getElem within]
    rfl
  · rw [if_neg own, List.getElem?_modify_ne _ _ (Ne.symm own)]

omit [Prf K] in
theorem used_rebuilt (tables : Tables K) (chunk : Nat) :
    (client.rebuilt tables).used chunk = 0 := by
  rw [used, rebuilt, List.getD_eq_getElem?_getD, List.getElem?_replicate]
  split <;> rfl

theorem consistent_rebuilt (valid : client.params.Valid) {stream : List Chunk} {tables : Tables K}
    (built : tables.Built client.params client.source stream) :
    (client.rebuilt tables).Consistent where
  valid := valid
  primary_length := built.primary_length
  backups_length := built.backups_length
  consumed_length := List.length_replicate
  used_le chunk := by
    rw [used_rebuilt]
    exact Nat.zero_le _
  backup_isSome group position := by
    rw [used_rebuilt]
    refine (built.backup?_isSome group position).trans ⟨fun both => ?_, fun all => ?_⟩
    · exact ⟨both.1, Nat.zero_le _, both.2⟩
    · exact ⟨all.1, all.2.2⟩
  awaits pending := absurd pending (by simp [rebuilt])

omit [KeySource σ K] in
/-- A backup hint is taken from its group just as its group counts it as used. -/
theorem Consistent.backup_isSome_refreshed (consistent : client.Consistent)
    (within : query.chunk < client.consumed.length) {hint : Hint K} {position : Nat}
    (next : client.nextBackup query.chunk = some (hint, position)) (word : UInt64)
    (group place : Nat) :
    ((client.refreshed query word hint position).tables.backup? group place).isSome
      ↔ group < client.params.chunkCount
        ∧ (client.refreshed query word hint position).used group ≤ place
        ∧ place < client.params.backupsPerChunk := by
  have position_eq : position = client.used query.chunk := (nextBackup_of_some next).1
  have before := consistent.backup_isSome group place
  rw [used_refreshed within]
  refine (iff_of_eq (congrArg (Option.isSome · = true) (Tables.backup?_takeBackup ..))).trans ?_
  by_cases taken : group = query.chunk ∧ place = position
  · rw [if_pos taken, if_pos taken.1, taken.1, taken.2]
    refine ⟨fun live => absurd live (by simp), fun all => ?_⟩
    omega
  rw [if_neg taken, before]
  by_cases own : group = query.chunk
  · -- The group of the query has lost its first place, and no other.
    have elsewhere : place ≠ position := fun same => taken ⟨own, same⟩
    subst own
    rw [if_pos rfl]
    constructor
    · intro all
      exact ⟨all.1, by omega, all.2.2⟩
    · intro all
      exact ⟨all.1, by omega, all.2.2⟩
  · rw [if_neg own]

omit [KeySource σ K] in
theorem consistent_refreshed (consistent : client.Consistent)
    (pending : client.pending = some query) {hint : Hint K} {position : Nat}
    (next : client.nextBackup query.chunk = some (hint, position)) (word : UInt64) :
    (client.refreshed query word hint position).Consistent := by
  obtain ⟨position_eq, unused, -⟩ := nextBackup_of_some next
  have position_eq : position = client.used query.chunk := position_eq
  have chunk_lt := (consistent.awaits pending).chunk_lt consistent.valid
  have within : query.chunk < client.consumed.length :=
    consistent.consumed_length.symm ▸ chunk_lt
  refine ⟨consistent.valid, List.length_set.trans consistent.primary_length,
    (List.length_modify ..).trans consistent.backups_length,
    (List.length_modify ..).trans consistent.consumed_length, ?_,
    consistent.backup_isSome_refreshed within next word,
    fun pending' => absurd pending' (by simp [refreshed, settled])⟩
  intro chunk
  rw [used_refreshed within]
  split
  · rename_i own
    rw [own, ← position_eq]
    exact unused
  · exact consistent.used_le chunk

theorem Change.consistent {peer : Peer σ K} {after : Client σ K} {marks : List Milestone}
    (change : Change peer client marks after) (consistent : client.Consistent) :
    after.Consistent := by
  cases change with
  | refresh pending next left => exact consistent_refreshed consistent pending next _
  | rebuild built sent => exact consistent_rebuilt consistent.valid built
  | draw source =>
    obtain ⟨valid, primary_length, backups_length, consumed_length, used_le, backup_isSome,
      awaits⟩ := consistent
    refine ⟨valid, primary_length, backups_length, consumed_length, used_le, backup_isSome, ?_⟩
    intro query pending
    obtain ⟨inRange, fresh, chunk, held⟩ := awaits pending
    exact ⟨inRange, fresh, chunk, held⟩
  | select selects =>
    obtain ⟨valid, primary_length, backups_length, consumed_length, used_le, backup_isSome, -⟩ :=
      consistent
    refine ⟨valid, primary_length, backups_length, consumed_length, used_le, backup_isSome, ?_⟩
    intro query pending
    cases pending
    exact selects.awaits
  | exhaust pending next left =>
    obtain ⟨valid, primary_length, backups_length, consumed_length, used_le, backup_isSome, -⟩ :=
      consistent
    exact ⟨valid, List.length_set.trans primary_length, backups_length, consumed_length, used_le,
      backup_isSome, fun pending' => absurd pending' (by simp [spent, settled])⟩
  | discard pending =>
    obtain ⟨valid, primary_length, backups_length, consumed_length, used_le, backup_isSome, -⟩ :=
      consistent
    exact ⟨valid, List.length_set.trans primary_length, backups_length, consumed_length, used_le,
      backup_isSome, fun pending' => absurd pending' (by simp [retired])⟩

theorem setup_of_ok {p : Params} {source : σ} {stream : List Chunk}
    (ready : (setup (K := K) p source stream).outcome = .ok ()) :
    ∃ tables : Tables K, tables.Built p source stream
      ∧ (setup p source stream).state = rebuilt { params := p, source } tables := by
  have ready : (rebuild stream ({ params := p, source } : Client σ K)).outcome = .ok () := ready
  exact rebuild_of_ok ready

theorem setup_params {p : Params} {source : σ} {stream : List Chunk}
    (ready : (setup (K := K) p source stream).outcome = .ok ()) :
    (setup (K := K) p source stream).state.params = p := by
  obtain ⟨tables, -, left⟩ := setup_of_ok ready
  rw [left]
  rfl

theorem consistent_setup {p : Params} (valid : p.Valid) {source : σ} {stream : List Chunk}
    (ready : (setup (K := K) p source stream).outcome = .ok ()) :
    (setup (K := K) p source stream).state.Consistent := by
  obtain ⟨tables, built, left⟩ := setup_of_ok ready
  rw [left]
  exact consistent_rebuilt valid built

theorem consistent_after [RandomSource σ] (consistent : client.Consistent) (run : List Operation) :
    (client.after run).Consistent :=
  (path_any client run).invariant Change.consistent consistent

end Client

end PrivateRetrieval
