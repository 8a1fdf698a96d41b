/-
How a session is represented.

The tables of a session have places for a fixed number of hints, its counters say
how many backup hints of each chunk are gone, and the pending query points into the
primary table.  Several operations write these fields one after another, and some
stop half way.  In every state that can be reached the fields agree nevertheless:

* **`Client.Group`** — a group of backup hints has lost just as many as its counter
  says, from the front (`Client.Group.countP_isSome`);
* **`Client.Sound`** — all groups are like that, and a pending query can be answered;
* **`Client.representation`** — every reachable state is sound, so that queries are
  prepared without fail, backup hints are there as long as the counter allows, and
  what is said to remain does remain.
-/
import PrivateRetrieval.Proofs.Consistency

namespace PrivateRetrieval

variable {σ K : Type}

/-! ### Places for backup hints -/

namespace Tables

/-- Every group has a place for each of its backup hints. -/
def Grouped (p : Params) (t : Tables K) : Prop :=
  ∀ {group : Nat} {slots : List (Slot K)}, t.backups[group]? = some slots →
    slots.length = p.backupsPerChunk

/-- Number of backup hints of a chunk that have not been taken. -/
def untaken (t : Tables K) (group : Nat) : Nat := (t.backups.getD group []).countP Option.isSome

theorem grouped_takeBackup {p : Params} {t : Tables K} (grouped : t.Grouped p)
    (group position : Nat) : (t.takeBackup group position).Grouped p := by
  intro other slots there
  rw [takeBackup, List.getElem?_modify] at there
  obtain ⟨before, held, rfl⟩ := Option.map_eq_some_iff.mp there
  split
  · rw [List.length_set]
    exact grouped held
  · exact grouped held

theorem Built.grouped [Prf K] [KeySource σ K] {p : Params} {source : σ} {stream : List Chunk}
    {t : Tables K} (built : t.Built p source stream) : t.Grouped p := by
  intro group slots there
  -- Reading chunks leaves the places as they were drawn.
  have drawn : (draw (K := K) p source).1.backups[group]? = some (slots.map Slot.bare) := by
    rw [← built.bare, Tables.bare, List.getElem?_map, there]
    rfl
  rw [draw, drawGroups_eq, List.getElem?_map] at drawn
  obtain ⟨place, -, eq⟩ := Option.map_eq_some_iff.mp drawn
  have length := congrArg List.length eq
  rw [drawHints_eq, List.length_map, List.length_range, List.length_map] at length
  exact length.symm

end Tables

namespace Client

variable [Prf K] [KeySource σ K] {client : Client σ K}

theorem Change.grouped {peer : Peer σ K} {after : Client σ K} {marks : List Milestone}
    (change : Change peer client marks after) (grouped : client.tables.Grouped client.params) :
    after.tables.Grouped after.params := by
  cases change with
  | refresh pending next left => exact Tables.grouped_takeBackup grouped _ _
  | rebuild built sent => exact built.grouped
  | _ => exact grouped

/-! ### Sound states -/

/-- A group whose first `used` backup hints have been taken, and no other. -/
structure Group (p : Params) (slots : List (Slot K)) (used : Nat) : Prop where
  length : slots.length = p.backupsPerChunk
  used_le : used ≤ p.backupsPerChunk
  taken : ∀ position, slots[position]? = some none ↔ position < used

/-- The fields of a session agree. -/
structure Sound (client : Client σ K) : Prop where
  primary_length : client.tables.primary.length = client.params.primaryCount
  backups_length : client.tables.backups.flatten.length = client.params.backupCount
  groups_length : client.tables.backups.length = client.params.chunkCount
  consumed_length : client.consumed.length = client.params.chunkCount
  group : ∀ chunk < client.params.chunkCount, ∃ slots used,
    client.tables.backups[chunk]? = some slots ∧ client.consumed[chunk]? = some used
      ∧ Group client.params slots used
  pending : ∀ {query}, client.pending = some query → client.Awaits query
    ∧ query.chunk < client.params.chunkCount

omit [Prf K] [KeySource σ K] in
theorem Group.countP_isSome {p : Params} {slots : List (Slot K)} {used : Nat}
    (group : Group p slots used) : slots.countP Option.isSome = p.backupsPerChunk - used := by
  obtain ⟨length, used_le, taken⟩ := group
  rw [← length] at used_le ⊢
  clear length
  -- One place after another is taken off the front, as long as it is an empty one.
  induction used generalizing slots with
  | zero =>
    rw [Nat.sub_zero, List.countP_eq_length]
    intro slot member
    obtain ⟨position, there⟩ := List.mem_iff_getElem?.mp member
    cases slot with
    | none => exact absurd ((taken position).mp there) (Nat.not_lt_zero position)
    | some hint => rfl
  | succ used ih =>
    cases slots with
    | nil => exact absurd used_le (Nat.not_succ_le_zero used)
    | cons slot rest =>
      obtain rfl : slot = none := Option.some.inj ((taken 0).mpr (Nat.succ_pos used))
      rw [List.countP_cons_of_neg (by simp), List.length_cons, Nat.add_sub_add_right]
      refine ih (Nat.le_of_succ_le_succ used_le) fun position => ?_
      rw [← List.getElem?_cons_succ (a := none), taken, Nat.add_lt_add_iff_right]

omit [KeySource σ K] in
theorem Consistent.consumed_eq (consistent : client.Consistent) {chunk : Nat}
    (within : chunk < client.params.chunkCount) :
    client.consumed[chunk]? = some (client.used chunk) := by
  rw [← consistent.consumed_length] at within
  rw [used, List.getD_eq_getElem?_getD, List.getElem?_eq_getElem within, Option.getD_some]

omit [KeySource σ K] in
theorem Consistent.group (consistent : client.Consistent)
    (grouped : client.tables.Grouped client.params) {chunk : Nat}
    (within : chunk < client.params.chunkCount) :
    ∃ slots, client.tables.backups[chunk]? = some slots
      ∧ Group client.params slots (client.used chunk) := by
  have there : chunk < client.tables.backups.length := consistent.backups_length ▸ within
  have held := List.getElem?_eq_getElem there
  have length := grouped held
  refine ⟨_, held, length, consistent.used_le chunk, fun position => ?_⟩
  have live := consistent.backup_isSome chunk position
  rw [Tables.backup?, held, Option.bind_some] at live
  have used_le := consistent.used_le chunk
  -- Inside the group a place has been taken just if it is not live, and outside there is none.
  by_cases inGroup : position < client.params.backupsPerChunk
  · rw [List.getElem?_eq_getElem (length ▸ inGroup), Option.join_some] at live
    rw [List.getElem?_eq_getElem (length ▸ inGroup), Option.some.injEq,
      ← Option.not_isSome_iff_eq_none, live]
    omega
  · rw [List.getElem?_eq_none (by omega)]
    constructor
    · intro taken
      exact absurd taken (by simp)
    · intro used
      omega

omit [KeySource σ K] in
theorem Consistent.sound (consistent : client.Consistent)
    (grouped : client.tables.Grouped client.params) : client.Sound where
  primary_length := consistent.primary_length
  backups_length := by
    have lengths : client.tables.backups.map List.length
        = List.replicate client.params.chunkCount client.params.backupsPerChunk := by
      rw [List.eq_replicate_iff, List.length_map, consistent.backups_length]
      refine ⟨rfl, fun length member => ?_⟩
      obtain ⟨slots, held, rfl⟩ := List.mem_map.mp member
      obtain ⟨chunk, there⟩ := List.mem_iff_getElem?.mp held
      exact grouped there
    rw [List.length_flatten, lengths, List.sum_replicate_nat, Params.backupCount, Nat.mul_comm]
  groups_length := consistent.backups_length
  consumed_length := consistent.consumed_length
  group chunk within := by
    obtain ⟨slots, held, group⟩ := consistent.group grouped within
    exact ⟨slots, client.used chunk, held, consistent.consumed_eq within, group⟩
  pending pending := by
    have awaits := consistent.awaits pending
    exact ⟨awaits, awaits.chunk_lt consistent.valid⟩

/-! ### What sound states allow -/

/-- Nothing that the fields of a session promise to each other is missing. -/
structure Dependable [RandomSource σ] (client : Client σ K) : Prop where
  /-- A query that was just selected is prepared without fail. -/
  select_prepare : ∀ {index query}, (select index client).outcome = .ok query →
    ∃ offsets, (select index client).state.prepare query = .ok offsets
  randomQuery_prepare : ∀ {query}, (randomQuery client).outcome = .ok query →
    ∃ offsets, (randomQuery client).state.prepare query = .ok offsets
  /-- The slot of a pending query is not empty. -/
  pendingHint : ∀ {query}, client.pending = some query →
    ∃ hint, client.pendingHint query = .ok hint
  /-- The next backup hint is there as long as the counter says that one is left. -/
  nextBackup : ∀ {chunk used}, client.consumed[chunk]? = some used →
    used < client.params.backupsPerChunk → ∃ hint, client.nextBackup chunk = some (hint, used)
  /-- Backup hints run out only when all of the chunk have been used. -/
  exhausted : ∀ {query parities chunk index},
    (recover query parities client).outcome = .error (.backupsExhausted chunk index) →
    client.consumed[chunk]? = some client.params.backupsPerChunk
  remaining : ∀ {chunk used}, client.consumed[chunk]? = some used →
    used + client.remainingBackups chunk = client.params.backupsPerChunk
      ∧ client.remainingBackups chunk = client.tables.untaken chunk
  remaining_past : ∀ {chunk}, client.params.chunkCount ≤ chunk →
    client.remainingBackups chunk = 0

omit [KeySource σ K] in
theorem Consistent.prepare_ok (consistent : client.Consistent) {query : Query}
    (pending : client.pending = some query) : ∃ offsets, client.prepare query = .ok offsets := by
  have awaits := consistent.awaits pending
  obtain ⟨hint, held, -⟩ := awaits.held
  exact ⟨_, prepare_of_pending pending held consistent.valid.chunkSize_pos
    (awaits.chunk_lt consistent.valid)⟩

omit [KeySource σ K] in
theorem Consistent.nextBackup_ok (consistent : client.Consistent) {chunk : Nat}
    (within : chunk < client.params.chunkCount)
    (left : client.used chunk < client.params.backupsPerChunk) :
    ∃ hint, client.nextBackup chunk = some (hint, client.used chunk) := by
  have live := (consistent.backup_isSome chunk (client.used chunk)).mpr
    ⟨within, Nat.le_refl _, left⟩
  obtain ⟨hint, there⟩ := Option.isSome_iff_exists.mp live
  refine ⟨hint, ?_⟩
  have left : client.consumed.getD chunk 0 < client.params.backupsPerChunk := left
  have there : client.tables.backup? chunk (client.consumed.getD chunk 0) = some hint := there
  rw [Client.nextBackup, if_pos left, there]
  rfl

omit [KeySource σ K] in
theorem Consistent.remainingBackups_eq (consistent : client.Consistent) {chunk : Nat}
    (within : chunk < client.params.chunkCount) :
    client.remainingBackups chunk = client.params.backupsPerChunk - client.used chunk := by
  rw [remainingBackups, consistent.consumed_eq within]

omit [Prf K] [KeySource σ K] in
theorem nextBackup_of_used {chunk : Nat}
    (all : client.params.backupsPerChunk ≤ client.used chunk) : client.nextBackup chunk = none :=
  if_neg (Nat.not_lt_of_le all)

omit [KeySource σ K] in
theorem Consistent.used_of_exhausted (consistent : client.Consistent) {query : Query}
    {parities : List UInt64} {chunk index : Nat}
    (h : (recover query parities client).outcome = .error (.backupsExhausted chunk index)) :
    chunk < client.params.chunkCount ∧ client.used chunk = client.params.backupsPerChunk := by
  rcases recover_cases client query parities with ⟨word, answered⟩ | ⟨-, -, notSpent⟩
  · have within := (consistent.awaits (answer_of_ok answered).1).chunk_lt consistent.valid
    rw [recover_of_answer answered] at h
    cases next : client.nextBackup query.chunk with
    | some found =>
      rw [next] at h
      exact absurd h (by simp)
    | none =>
      rw [next] at h
      cases h
      refine ⟨within, Nat.le_antisymm (consistent.used_le _) (Nat.le_of_not_lt fun left => ?_)⟩
      -- Had one been left, it would have been found.
      obtain ⟨hint, found⟩ := consistent.nextBackup_ok within left
      exact absurd (next.symm.trans found) (by simp)
  · exact absurd h (notSpent chunk index)

theorem Consistent.dependable [RandomSource σ] (consistent : client.Consistent)
    (grouped : client.tables.Grouped client.params) : client.Dependable where
  select_prepare selected := by
    obtain ⟨selects, -, eq⟩ := select_of_ok selected
    have change : Change Peer.any client [.selected _] (client.awaiting _) := .select selects
    rw [eq]
    exact (change.consistent consistent).prepare_ok (client.pending_awaiting _)
  randomQuery_prepare {query} selected := by
    obtain ⟨source, ⟨found, selects, eq⟩ | ⟨-, never⟩⟩ := randomQuery_cases client
    · rw [eq] at selected ⊢
      cases selected
      -- The draws come first, and they have no part in what a query needs.
      have drawn : Change Peer.any client [] { client with source } := .draw source
      have change : Change Peer.any { client with source } [.selected query] _ := .select selects
      exact (change.consistent (drawn.consistent consistent)).prepare_ok rfl
    · exact absurd selected (never query)
  pendingHint pending := by
    obtain ⟨hint, held, -⟩ := (consistent.awaits pending).held
    exact ⟨hint, pendingHint_of_pending pending held⟩
  nextBackup {chunk used} counted left := by
    have within := consistent.consumed_length ▸ (List.getElem?_eq_some_iff.mp counted).1
    cases counted.symm.trans (consistent.consumed_eq within)
    exact consistent.nextBackup_ok within left
  exhausted spent := by
    obtain ⟨within, all⟩ := consistent.used_of_exhausted spent
    rw [consistent.consumed_eq within, all]
  remaining {chunk used} counted := by
    have within := consistent.consumed_length ▸ (List.getElem?_eq_some_iff.mp counted).1
    obtain ⟨slots, held, group⟩ := consistent.group grouped within
    cases counted.symm.trans (consistent.consumed_eq within)
    simp only [remainingBackups, counted, Tables.untaken, List.getD_eq_getElem?_getD, held,
      Option.getD_some, group.countP_isSome, and_true]
    exact Nat.add_sub_of_le group.used_le
  remaining_past past := by
    rw [← consistent.consumed_length] at past
    rw [remainingBackups, List.getElem?_eq_none past]

/-- **The representation of a session.**  Whatever is asked of a session and whatever the
server answers, the fields of its state agree, and nothing that depends on that fails. -/
theorem representation [RandomSource σ] {size : Nat} {p : Params} (derived : p.Derived size)
    {source : σ} {stream : List Chunk}
    (ready : (setup (K := K) p source stream).outcome = .ok ()) (run : List Operation) :
    let last := (setup (K := K) p source stream).state.after run
    last.params = p ∧ last.Sound ∧ last.Dependable := by
  intro last
  have consistent : last.Consistent := consistent_after (consistent_setup derived.valid ready) run
  have grouped : last.tables.Grouped last.params := by
    refine (path_any _ run).invariant (P := fun found => found.tables.Grouped found.params)
      Change.grouped ?_
    obtain ⟨tables, built, left⟩ := setup_of_ok ready
    rw [left]
    exact built.grouped
  exact ⟨(params_after _ run).trans (setup_params ready), consistent.sound grouped,
    consistent.dependable grouped⟩

/-- The only backup hint of the first chunk has replaced the hint that served index 0, and
that hint now waits for the word of index 2. -/
theorem representation_with_one_backup_used :
    let last := Small.client.after [.select 0, .recover ⟨0, 0, 0⟩ [0, 0], .select 2]
    last.Sound ∧ last.consumed = [1, 0] ∧ last.tables.untaken 0 = 0 ∧ last.tables.untaken 1 = 1
      ∧ last.pending = some ⟨2, 1, 0⟩ ∧ ∃ hint, last.pendingHint ⟨2, 1, 0⟩ = .ok hint := by
  intro last
  have consumed : last.consumed = [1, 0] := by decide
  have pending : last.pending = some ⟨2, 1, 0⟩ := by decide
  obtain ⟨-, sound, (dependable : last.Dependable)⟩ := representation Small.derived
    Small.setup_ok [.select 0, .recover ⟨0, 0, 0⟩ [0, 0], .select 2]
  have first : last.consumed[0]? = some 1 := by rw [consumed]; rfl
  have second : last.consumed[1]? = some 0 := by rw [consumed]; rfl
  refine ⟨sound, consumed, ?_, ?_, pending, dependable.pendingHint pending⟩
  · rw [← (dependable.remaining first).2]
    decide
  · rw [← (dependable.remaining second).2]
    decide

end Client

end PrivateRetrieval
