/-
The hint budget of a session.

A build provides a primary hint for each slot and backup hints for each chunk.  From
then on every query costs something, and the history since the build says what:

* **`Client.Accounts`** — a backup hint for every answer that was followed by a refresh,
  and a slot for every query that was given up or found no backup hint;
* **`Client.Change.accounts`**, **`Client.Path.accounts`** — no change costs more or less;
* **`Client.Budgeted`**, **`Client.hint_budget`** — hence what is left, when an answer finds
  the backup hints of its chunk exhausted, and how many losses the log shows.
-/
import PrivateRetrieval.Proofs.Delivery
import PrivateRetrieval.Proofs.Journal
import PrivateRetrieval.Proofs.Representation

namespace PrivateRetrieval

variable {σ K : Type}

/-! ### Live slots -/

namespace Tables

variable {t : Tables K} {slot : Nat} {hint : Hint K}

/-- Only what is put into a live slot matters. -/
theorem countP_set_of_live (held : t.hint? slot = some hint) (other : Slot K) :
    (t.primary.set slot other).countP Option.isSome + 1
      = t.liveCount + if other.isSome then 1 else 0 := by
  obtain ⟨within, here⟩ := List.getElem?_eq_some_iff.mp (Option.join_eq_some_iff.mp held)
  have live : t.primary[slot].isSome = true := by rw [here, Option.isSome_some]
  have counted : 0 < t.primary.countP Option.isSome :=
    List.countP_pos_iff.mpr ⟨_, List.getElem_mem within, live⟩
  rw [List.countP_set within, if_pos live, liveCount]
  omega

theorem liveCount_retire (held : t.hint? slot = some hint) :
    (t.retire slot).liveCount + 1 = t.liveCount :=
  countP_set_of_live held none

theorem liveCount_install (held : t.hint? slot = some hint) (fresh : Hint K) :
    (t.install slot fresh).liveCount = t.liveCount :=
  Nat.add_right_cancel (countP_set_of_live held (some fresh))

theorem Built.liveCount [Prf K] [KeySource σ K] {p : Params} {source : σ} {stream : List Chunk}
    (built : t.Built p source stream) : t.liveCount = p.primaryCount := by
  rw [← built.primary_length, Tables.liveCount, List.countP_eq_length]
  intro slot member
  obtain ⟨place, there⟩ := List.mem_iff_getElem?.mp member
  have within := built.primary_length ▸ (List.getElem?_eq_some_iff.mp there).1
  have live := built.hint? place
  rw [if_pos within, Tables.hint?, there, Option.join_some] at live
  cases slot with
  | none => exact absurd live (by simp)
  | some hint => rfl

end Tables

open Milestone

variable [Prf K] [KeySource σ K]

namespace Client

/-! ### What a history has cost -/

/-- The history, which goes back to the last build or further, accounts for all that is gone
from the tables. -/
structure Accounts (client : Client σ K) (history : List Milestone) : Prop where
  used : ∀ chunk, client.used chunk = recoveries chunk history
  live : client.liveCount + (discards history + exhaustions history) = client.params.primaryCount

variable {client after first last : Client σ K} {marks history prior : List Milestone}

omit [Prf K] [KeySource σ K] in
/-- A slot that is emptied is a loss. -/
theorem live_of_retired {slot : Nat} {hint : Hint K} (held : client.tables.hint? slot = some hint)
    (losses : Nat) :
    (client.tables.retire slot).liveCount + (losses + 1) = client.liveCount + losses := by
  rw [Client.liveCount, ← Tables.liveCount_retire held]
  omega

theorem accounts_rebuilt {stream : List Chunk} {tables : Tables K}
    (built : tables.Built client.params client.source stream) :
    (client.rebuilt tables).Accounts (history ++ [.built stream]) := by
  constructor
  · intro chunk
    rw [recoveries_concat]
    exact used_rebuilt tables chunk
  · rw [losses_concat]
    exact built.liveCount

/-- A change costs what its milestone says. -/
theorem Change.accounts {peer : Peer σ K} (change : Change peer client marks after)
    (consistent : client.Consistent) (accounts : client.Accounts history) :
    after.Accounts (history ++ marks) := by
  obtain ⟨used, live⟩ := accounts
  cases change with
  | draw source =>
    rw [List.append_nil]
    exact ⟨used, live⟩
  | rebuild built sent => exact accounts_rebuilt built
  | select selects =>
    constructor
    · intro chunk
      rw [recoveries_concat]
      exact used chunk
    · rw [losses_concat]
      exact live
  | refresh pending next left =>
    have awaits := consistent.awaits pending
    have within := consistent.consumed_length ▸ awaits.chunk_lt consistent.valid
    obtain ⟨gone, held, -⟩ := awaits.held
    constructor
    · intro chunk
      rw [recoveries_concat, used_refreshed within, used chunk]
    · rw [losses_concat]
      -- The slot of the query is live before and after.
      exact (congrArg (· + _) (Tables.liveCount_install held _)).trans live
  | exhaust pending next left =>
    obtain ⟨gone, held, -⟩ := (consistent.awaits pending).held
    constructor
    · intro chunk
      rw [recoveries_concat]
      exact used chunk
    · rw [losses_concat]
      exact (live_of_retired held _).trans live
  | discard pending =>
    obtain ⟨gone, held, -⟩ := (consistent.awaits pending).held
    constructor
    · intro chunk
      rw [recoveries_concat]
      exact used chunk
    · rw [losses_concat]
      exact (live_of_retired held _).trans live

theorem Path.accounts {peer : Peer σ K} (path : Path peer first history last)
    (consistent : first.Consistent) (accounts : first.Accounts prior) :
    last.Accounts (prior ++ history) := by
  induction path generalizing prior with
  | nil =>
    rw [List.append_nil]
    exact accounts
  | cons change _ ih =>
    rw [← List.append_assoc]
    exact ih (change.consistent consistent) (change.accounts consistent accounts)

/-! ### What is left -/

theorem Consistent.remaining_rebuilt (consistent : client.Consistent) {stream : List Chunk}
    {tables : Tables K} (built : tables.Built client.params client.source stream) {chunk : Nat}
    (within : chunk < client.params.chunkCount) :
    (client.rebuilt tables).remainingBackups chunk = client.params.backupsPerChunk := by
  have eq := (consistent_rebuilt consistent.valid built).remainingBackups_eq within
  rw [used_rebuilt] at eq
  exact eq

variable [RandomSource σ]

/-- What the history and the log of a session say of its hints, both from its start on. -/
structure Budgeted (client : Client σ K) (history : List Milestone) (log : List Event) :
    Prop where
  /-- A backup hint has gone with every query of its chunk that yielded a word, and with no
  other. -/
  remaining : ∀ chunk < client.params.chunkCount,
    client.remainingBackups chunk + recoveries chunk history = client.params.backupsPerChunk
  /-- A slot has gone with every query that was given up, or was answered when no backup
  hint of its chunk was left. -/
  live : client.liveCount + (discards history + exhaustions history) = client.params.primaryCount
  logged : client.liveCount + countSince Event.isBuild Event.isLoss log
    = client.params.primaryCount
  /-- The log has what every step reports, but for what comes from a transport. -/
  reported : ∀ operation : Operation,
    (operation.act client).events = operation.carried client ++ operation.reports client
  /-- An answer that is taken finds the backup hints of its chunk exhausted if all of them
  have gone, whatever has happened to other chunks. -/
  answered : ∀ {operation : Operation} {query : Query}, operation.Delivers client query →
    ((∃ word, (operation.act client).outcome = .ok (.word word))
        ↔ recoveries query.chunk history < client.params.backupsPerChunk)
      ∧ ((operation.act client).outcome = .error (.backupsExhausted query.chunk query.index)
        ↔ recoveries query.chunk history = client.params.backupsPerChunk)
  /-- Nothing but such an answer does, though a transport may say the same. -/
  exhausted : ∀ {operation : Operation} {chunk index : Nat}, operation.Answering →
    (operation.act client).outcome = .error (.backupsExhausted chunk index) →
    ∃ query, operation.Delivers client query ∧ query.chunk = chunk ∧ query.index = index
  retrieved : ∀ {index chunk index' : Nat} {respond : Bytes → Reply Bytes},
    (retrieve index respond client).outcome = .error (.backupsExhausted chunk index') →
    (∃ query, (Operation.retrieve index respond).Delivers client query ∧ query.chunk = chunk
      ∧ query.index = index')
    ∨ ∃ bytes, (Client.query index client).outcome = .ok bytes
      ∧ (respond bytes).result = .error (.backupsExhausted chunk index')
  /-- A build makes up for all losses, and leaves the cache alone. -/
  rebuilt : ∀ {stream : List Chunk}, (rebuild stream client).outcome = .ok () →
    (∀ chunk < client.params.chunkCount,
      (rebuild stream client).state.remainingBackups chunk = client.params.backupsPerChunk)
    ∧ (rebuild stream client).state.liveCount = client.params.primaryCount
    ∧ countSince Event.isBuild Event.isLoss (log ++ (rebuild stream client).events) = 0
    ∧ (rebuild stream client).state.cache = client.cache

theorem Accounts.answered (accounts : client.Accounts history) (consistent : client.Consistent)
    {operation : Operation} {query : Query} (delivers : operation.Delivers client query) :
    (recoveries query.chunk history < client.params.backupsPerChunk
      ∧ ∃ word, (operation.act client).outcome = .ok (.word word))
    ∨ (recoveries query.chunk history = client.params.backupsPerChunk
      ∧ (operation.act client).outcome = .error (.backupsExhausted query.chunk query.index)) := by
  obtain ⟨parities, brings, length⟩ := delivers
  obtain ⟨word, outcome, leaves, ended, eq⟩ := consistent.taken brings length
  rw [← accounts.used, eq]
  rcases ended with ⟨hint, position, next, rfl, -⟩ | ⟨next, rfl, -⟩
  · obtain ⟨rfl, left, -⟩ := nextBackup_of_some next
    exact .inl ⟨left, word, rfl⟩
  · refine .inr ⟨Nat.le_antisymm (consistent.used_le _) (Nat.le_of_not_lt fun left => ?_), rfl⟩
    -- Had one been left, it would have been found.
    obtain ⟨hint, found⟩ := consistent.nextBackup_ok leaves.within left
    exact absurd (next.symm.trans found) (by simp)

/-- **The hint budget.**  Whatever is asked of a session and whatever its servers answer,
what is left of its hints is what the last build provided less what the history since
then has cost, and that much the log shows. -/
theorem hint_budget {size : Nat} {p : Params} (derived : p.Derived size) {source : σ}
    {stream : List Chunk} (ready : (setup (K := K) p source stream).outcome = .ok ())
    (run : List Operation) :
    let start := setup (K := K) p source stream
    let last := start.state.after run
    last.params = p
      ∧ last.Budgeted (.built stream :: start.state.history run)
          (start.events ++ start.state.log run) := by
  intro start last
  have params : last.params = p := (params_after _ run).trans (setup_params ready)
  have consistent : last.Consistent := consistent_after (consistent_setup derived.valid ready) run
  have accounts : last.Accounts (.built stream :: start.state.history run) := by
    obtain ⟨tables, built, left⟩ := setup_of_ok ready
    have provided : start.state.Accounts ([] ++ [.built stream]) := by
      rw [left]
      exact accounts_rebuilt built
    exact (path_any start.state run).accounts (consistent_setup derived.valid ready) provided
  refine ⟨params, ?_, accounts.live, ?_, Operation.events_eq last, ?_, ?_, retrieve_exhausted, ?_⟩
  · intro chunk within
    rw [consistent.remainingBackups_eq within, ← accounts.used]
    exact Nat.sub_add_cancel (consistent.used_le chunk)
  · rw [losses_log ready]
    exact accounts.live
  · intro operation query delivers
    rcases accounts.answered consistent delivers with ⟨left, word, ended⟩ | ⟨all, ended⟩
    · rw [ended]
      exact ⟨iff_of_true ⟨word, rfl⟩ left, iff_of_false (by simp) (Nat.ne_of_lt left)⟩
    · rw [ended]
      exact ⟨iff_of_false (by simp) (by omega), iff_of_true rfl all⟩
  · intro operation chunk index answering ended
    obtain ⟨query, parities, -, brings, length, -, chunk_eq, index_eq, -⟩ :=
      consistent.exhausted answering ended
    exact ⟨query, ⟨parities, brings, length⟩, chunk_eq, index_eq⟩
  · intro stream' ended
    obtain ⟨tables, built, left⟩ := rebuild_of_ok ended
    have reported := events_rebuild last stream'
    rw [Operation.milestones, ended] at reported
    rw [reported, left]
    refine ⟨fun chunk => consistent.remaining_rebuilt built, built.liveCount, ?_, rfl⟩
    exact countSince_concat _

/-- The only backup hint of chunk 0 goes with the word of index 0, so that the word of index 1
costs the slot of its hint. The other slot is lost with a query that is given up, and the
backup hint of chunk 1 is left. -/
theorem hint_budget_of_two_losses :
    let run : List Operation := [.select 0, .recover ⟨0, 0, 0⟩ [0, 0], .select 1,
      .recover ⟨1, 0, 1⟩ [0, 0], .select 2, .discard]
    let last := Small.client.after run
    Small.client.history run = [.selected ⟨0, 0, 0⟩, .refreshed ⟨0, 0, 0⟩ 0, .selected ⟨1, 0, 1⟩,
        .exhausted ⟨1, 0, 1⟩, .selected ⟨2, 1, 0⟩, .discarded ⟨2, 1, 0⟩]
      ∧ last.remainingBackups 0 = 0 ∧ last.remainingBackups 1 = 1 ∧ last.liveCount = 0
      ∧ countSince Event.isBuild Event.isLoss
          (.hintsBuilt 2 2 2 :: Small.client.log run) = 2 := by
  intro run last
  have history : Small.client.history run = [.selected ⟨0, 0, 0⟩, .refreshed ⟨0, 0, 0⟩ 0,
      .selected ⟨1, 0, 1⟩, .exhausted ⟨1, 0, 1⟩, .selected ⟨2, 1, 0⟩,
      .discarded ⟨2, 1, 0⟩] := by decide
  have reported : (setup (K := LiteralKey) Small.params Small.source Small.server.chunks).events
      = [.hintsBuilt 2 2 2] := by decide
  obtain ⟨(params : last.params = Small.params), (budgeted : last.Budgeted _ _)⟩ :=
    hint_budget Small.derived Small.setup_ok run
  rw [reported, show (setup Small.params Small.source Small.server.chunks).state
    = Small.client from rfl, history] at budgeted
  have first := budgeted.remaining 0 (by rw [params]; decide)
  have second := budgeted.remaining 1 (by rw [params]; decide)
  have live := budgeted.live
  have logged := budgeted.logged
  rw [params] at first second live logged
  refine ⟨history, Nat.add_right_cancel first, Nat.add_right_cancel second,
    Nat.add_right_cancel live, ?_⟩
  rwa [Nat.add_right_cancel live, Nat.zero_add] at logged

end Client

end PrivateRetrieval
