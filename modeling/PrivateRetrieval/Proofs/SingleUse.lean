/-
No hint serves two queries.

A server that meets one trace twice could tell two queries apart from it.  Between
two builds this never happens, whatever the server answers and in whatever order
a session is used:

* **`Milestone.Between`** — two milestones of a history and what lies between them;
* **`Client.Path.ends`** — a query is over before the next one is selected;
* **`Client.SingleUse`**, **`Client.single_use`** — an empty slot is not selected
  again, a slot is selected again only with a backup hint in it, no sample is
  selected twice, and a handle is refused once its query has ended.
-/
import PrivateRetrieval.Proofs.Samples

namespace PrivateRetrieval

variable {σ K : Type}

namespace Milestone

/-- A milestone that leaves a slot empty. -/
def Retires (slot : Nat) : Milestone → Prop
  | .exhausted query | .discarded query => query.slot = slot
  | _ => False

/-- A milestone that ends a query, with or without its word. -/
def Ends (query : Query) : Milestone → Prop
  | .refreshed ended _ | .exhausted ended | .discarded ended => ended = query
  | _ => False

/-- What lies between an earlier and a later milestone of a history. -/
def Between (history : List Milestone) (earlier : Milestone) (middle : List Milestone)
    (later : Milestone) : Prop :=
  ∃ front back, history = front ++ earlier :: (middle ++ later :: back)

end Milestone

open Milestone

variable [Prf K] [KeySource σ K]

namespace Client

variable {client after first last : Client σ K} {query query' : Query} {slot : Nat}
  {mark : Milestone} {history middle : List Milestone}

/-! ### What a milestone says about states -/

theorem Change.selects {peer : Peer σ K} (change : Change peer client [.selected query] after) :
    client.Selects query ∧ after.pending = some query := by
  cases change with
  | select selects => exact ⟨selects, rfl⟩

theorem Change.empty_of_retires {peer : Peer σ K} (change : Change peer client [mark] after)
    (retires : mark.Retires slot) : after.tables.hint? slot = none := by
  cases change with
  | exhaust pending next left =>
    obtain rfl : _ = slot := retires
    exact (Tables.hint?_retire ..).trans (if_pos rfl)
  | discard pending =>
    obtain rfl : _ = slot := retires
    exact (Tables.hint?_retire ..).trans (if_pos rfl)
  | _ => exact absurd retires id

/-- The backup hint of a refresh is the one that follows those that were used. -/
theorem Change.used_of_refreshed {position : Nat} (consistent : client.Consistent)
    (change : Change Peer.standing client [.refreshed query position] after) :
    position = client.used query.chunk ∧ position < after.used query.chunk := by
  cases change with
  | refresh pending next left =>
    have position_eq : position = client.used query.chunk := (nextBackup_of_some next).1
    have within := (consistent.awaits pending).chunk_lt consistent.valid
    rw [← consistent.consumed_length] at within
    refine ⟨position_eq, ?_⟩
    rw [used_refreshed within, if_pos rfl, position_eq]
    exact Nat.lt_succ_self _

/-- A query that has ended cannot be answered: its word is kept or its slot empty. -/
theorem Change.ended {peer : Peer σ K} (change : Change peer client [mark] after)
    (ends : mark.Ends query) :
    (after.cached query.index).isSome ∨ after.tables.hint? query.slot = none := by
  have kept (word : UInt64) : ((client.cache.insert query.index word).get? query.index).isSome := by
    rw [Cache.get?_insert, if_pos rfl]
    rfl
  cases change with
  | refresh pending next left =>
    obtain rfl : _ = query := ends
    exact .inl (kept _)
  | exhaust pending next left =>
    obtain rfl : _ = query := ends
    exact .inl (kept _)
  | discard pending =>
    obtain rfl : _ = query := ends
    exact .inr ((Tables.hint?_retire ..).trans (if_pos rfl))
  | _ => exact absurd ends id

/-! ### What lies between two milestones -/

theorem Path.between {earlier later : Milestone} (path : Path Peer.standing first history last)
    (consistent : first.Consistent) (between : Between history earlier middle later) :
    ∃ a b c d : Client σ K, a.Consistent ∧ Change Peer.standing a [earlier] b
      ∧ Path Peer.standing b middle c ∧ Change Peer.standing c [later] d := by
  obtain ⟨front, back, eq⟩ := between
  obtain ⟨a, b, toEarlier, atEarlier, rest⟩ := path.split eq
  obtain ⟨c, d, path, atLater, -⟩ := rest.split rfl
  exact ⟨a, b, c, d, toEarlier.invariant Change.consistent consistent, atEarlier, path, atLater⟩

theorem Path.slot_ne_of_empty (path : Path Peer.standing first middle client)
    (consistent : first.Consistent) (empty : first.tables.hint? slot = none)
    (selects : client.Selects query) : query.slot ≠ slot := by
  rintro rfl
  have still := path.empty consistent empty
  obtain ⟨hint, held, -⟩ := selects.held
  exact absurd (held.symm.trans still) (by simp)

/-- A query has ended before nothing is pending. -/
theorem Path.ends (path : Path Peer.standing first middle last)
    (pending : first.pending = some query) (idle : last.pending = none) :
    ∃ mark ∈ middle, mark.Ends query := by
  induction path with
  | nil => exact absurd (pending.symm.trans idle) (by simp)
  | cons change rest ih =>
    cases change with
    | draw source => exact ih pending idle
    | select selects => exact absurd (pending.symm.trans selects.idle) (by simp)
    | refresh pending' next left =>
      cases Option.some.inj (pending.symm.trans pending')
      exact ⟨_, List.mem_append_left _ (List.mem_singleton_self _), rfl⟩
    | exhaust pending' next left =>
      cases Option.some.inj (pending.symm.trans pending')
      exact ⟨_, List.mem_append_left _ (List.mem_singleton_self _), rfl⟩
    | discard pending' =>
      cases Option.some.inj (pending.symm.trans pending')
      exact ⟨_, List.mem_append_left _ (List.mem_singleton_self _), rfl⟩
    | rebuild built sent => exact sent.elim

theorem Path.refreshed_between (path : Path Peer.standing first middle client)
    (consistent : first.Consistent) (pending : first.pending = some query)
    (selects : client.Selects query') (same : query'.slot = query.slot) :
    ∃ position, .refreshed query position ∈ middle := by
  obtain ⟨mark, member, ends⟩ := path.ends pending selects.idle
  obtain ⟨front, back, eq⟩ := List.append_of_mem member
  obtain ⟨a, b, before, here, rest⟩ := path.split eq
  have consistent := here.consistent (before.invariant Change.consistent consistent)
  have live (retires : mark.Retires query.slot) : False :=
    rest.slot_ne_of_empty consistent (here.empty_of_retires retires) selects same
  -- Had the query ended otherwise, its slot would be empty.
  cases mark with
  | refreshed ended position =>
    obtain rfl : ended = query := ends
    exact ⟨position, member⟩
  | exhausted ended => exact (live (congrArg Query.slot ends)).elim
  | discarded ended => exact (live (congrArg Query.slot ends)).elim
  | built stream => exact absurd ends id
  | selected ended => exact absurd ends id

/-- A query that has ended is never pending again. -/
theorem Path.not_pending_of_ends (path : Path Peer.standing first history last)
    (consistent : first.Consistent) (member : mark ∈ history) (ends : mark.Ends query) :
    last.pending ≠ some query ∧ ¬ last.Selects query := by
  obtain ⟨front, back, eq⟩ := List.append_of_mem member
  obtain ⟨a, b, before, here, rest⟩ := path.split eq
  have consistent := here.consistent (before.invariant Change.consistent consistent)
  obtain ⟨consistent, closed⟩ := rest.kept (P := fun found =>
      (found.cached query.index).isSome ∨ found.tables.hint? query.slot = none) consistent
    (fun change consistent closed => closed.imp change.known (change.empty consistent))
    (here.ended ends)
  constructor
  · intro pending
    obtain ⟨-, fresh, -, hint, held, -⟩ := consistent.awaits pending
    rcases closed with known | empty
    · exact absurd known (by simp [fresh])
    · exact absurd (held.symm.trans empty) (by simp)
  · intro selects
    obtain ⟨hint, held, -⟩ := selects.held
    rcases closed with known | empty
    · exact absurd known (by simp [selects.fresh])
    · exact absurd (held.symm.trans empty) (by simp)

theorem Path.taken_of_refreshed (path : Path Peer.standing first history last)
    (consistent : first.Consistent) {position : Nat}
    (member : .refreshed query position ∈ history) :
    last.tables.backup? query.chunk position = none := by
  obtain ⟨front, back, eq⟩ := List.append_of_mem member
  obtain ⟨a, b, before, here, rest⟩ := path.split eq
  have consistent := before.invariant Change.consistent consistent
  have used := (here.used_of_refreshed consistent).2
  have consistent := here.consistent consistent
  have more := rest.used_le_used consistent query.chunk
  have consistent := rest.invariant Change.consistent consistent
  refine Option.not_isSome_iff_eq_none.mp fun live => ?_
  have unused := ((consistent.backup_isSome _ _).mp live).2.1
  omega

/-- Two refreshes from one group take different places of it: the later one takes the
place behind all that have been used. -/
theorem Path.installed_ne {position position' : Nat} (path : Path Peer.standing first history last)
    (consistent : first.Consistent)
    (between : Between history (.refreshed query position) middle (.refreshed query' position')) :
    (query'.chunk, position') ≠ (query.chunk, position) := by
  intro same
  obtain ⟨a, b, c, d, consistent, earlier, path, later⟩ := path.between consistent between
  have used := (earlier.used_of_refreshed consistent).2
  have consistent := earlier.consistent consistent
  have more := path.used_le_used consistent query.chunk
  have next := (later.used_of_refreshed (path.invariant Change.consistent consistent)).1
  rw [Prod.mk.injEq] at same
  rw [same.1] at next
  omega

/-- A handle is not given out again: its query has ended, and what was learned or lost
with it rules out the same selection. -/
theorem Path.handle_ne (path : Path Peer.standing first history last)
    (consistent : first.Consistent)
    (between : Between history (.selected query) middle (.selected query')) : query' ≠ query := by
  rintro rfl
  obtain ⟨a, b, c, d, consistent, earlier, path, later⟩ := path.between consistent between
  obtain ⟨mark, member, ends⟩ := path.ends earlier.selects.2 later.selects.1.idle
  exact (path.not_pending_of_ends (earlier.consistent consistent) member ends).2 later.selects.1

/-! ### Histories between two builds -/

/-- Every hint is used once in a session whose keys were drawn from `source`, as the
history since its last build tells. -/
structure SingleUse (source : σ) (history : List Milestone) (last : Client σ K) : Prop where
  /-- A slot that was left empty is not selected again. -/
  retired : ∀ {mark middle query}, Between history mark middle (.selected query) →
    ¬ mark.Retires query.slot
  /-- A slot is selected again only after its first query was answered and a backup hint
  was put in its place. -/
  reused : ∀ {query middle query'}, Between history (.selected query) middle (.selected query') →
    query'.slot = query.slot → ∃ position, .refreshed query position ∈ middle
  /-- A backup hint is put in place once, and is then gone from its group. -/
  installed : ∀ {query position middle query' position'},
    Between history (.refreshed query position) middle (.refreshed query' position') →
    (query'.chunk, position') ≠ (query.chunk, position)
  taken : ∀ {query position}, .refreshed query position ∈ history →
    last.tables.backup? query.chunk position = none
  /-- No sample is selected twice; the keys of the hints are those of their samples. -/
  samples : (Samples.ofHistory last.params history).selected.Nodup
  keys : ∀ {slot hint}, last.tables.hint? slot = some hint →
    hint.key = keyAt source ((Samples.ofHistory last.params history).origin slot)
  /-- No handle is given out twice. -/
  handles : ∀ {query middle query'}, Between history (.selected query) middle (.selected query') →
    query' ≠ query
  /-- The handle of a query that has ended is refused. -/
  refused : ∀ {mark query}, mark ∈ history → mark.Ends query →
    last.prepare query = .error .noPendingQuery
      ∧ ∀ parities, recover query parities last = ⟨.error .noPendingQuery, last, []⟩

variable (client) in
/-- **Single use.**  Once a build has succeeded, no hint serves two queries until the
next build that succeeds. -/
theorem single_use [RandomSource σ] {size : Nat} (derived : client.params.Derived size)
    {stream : List Chunk} (ready : (rebuild stream client).outcome = .ok ()) {run : List Operation}
    (standing : ∀ stream', .built stream' ∉ (rebuild stream client).state.history run) :
    SingleUse client.source ((rebuild stream client).state.history run)
      ((rebuild stream client).state.after run) := by
  obtain ⟨tables, built, left⟩ := rebuild_of_ok ready
  have consistent : (rebuild stream client).state.Consistent := by
    rw [left]
    exact consistent_rebuilt derived.valid built
  have path := path_standing standing
  have params : ((rebuild stream client).state.after run).params = client.params := by
    rw [params_after, left]
    rfl
  have tracks : (Samples.ofHistory client.params ((rebuild stream client).state.history run)).Tracks
      client.params client.source ((rebuild stream client).state.after run) := by
    refine path.tracks consistent ?_
    rw [left]
    exact tracks_rebuilt built
  -- From here on only the path matters, and no longer the run that it is of.
  generalize (rebuild stream client).state.history run = history at path tracks
  constructor
  · intro mark middle query between retires
    obtain ⟨a, b, c, d, consistent, earlier, path, later⟩ := path.between consistent between
    exact path.slot_ne_of_empty (earlier.consistent consistent) (earlier.empty_of_retires retires)
      later.selects.1 rfl
  · intro query middle query' between same
    obtain ⟨a, b, c, d, consistent, earlier, path, later⟩ := path.between consistent between
    exact path.refreshed_between (earlier.consistent consistent) earlier.selects.2
      later.selects.1 same
  · exact path.installed_ne consistent
  · exact path.taken_of_refreshed consistent
  · rw [params]
    exact tracks.nodup
  · rw [params]
    exact tracks.key
  · exact path.handle_ne consistent
  · intro mark query member ends
    have other := (path.not_pending_of_ends consistent member ends).1
    exact ⟨prepare_of_ne other, recover_of_ne other⟩

/-- Slot 0 serves the queries for 0 and 2, with sample 0 and then with the first backup
hint, which is sample 2. -/
theorem single_use_of_one_slot :
    let run : List Operation := [.select 0, .recover ⟨0, 0, 0⟩ [7], .recover ⟨0, 0, 0⟩ [0, 0],
      .select 2, .discard]
    Small.client.history run = [.selected ⟨0, 0, 0⟩, .refreshed ⟨0, 0, 0⟩ 0, .selected ⟨2, 1, 0⟩,
        .discarded ⟨2, 1, 0⟩]
      ∧ (Samples.ofHistory Small.params (Small.client.history run)).selected = [0, 2]
      ∧ SingleUse Small.source (Small.client.history run) (Small.client.after run) := by
  intro run
  have history : Small.client.history run = [.selected ⟨0, 0, 0⟩, .refreshed ⟨0, 0, 0⟩ 0,
      .selected ⟨2, 1, 0⟩, .discarded ⟨2, 1, 0⟩] := by decide
  have standing (stream : List Chunk) : .built stream ∉ Small.client.history run := by
    rw [history]
    simp
  have ready : (rebuild Small.server.chunks ({ params := Small.params, source := Small.source } :
      Client (Scripted Keystream) LiteralKey)).outcome = .ok () := Small.setup_ok
  refine ⟨history, ?_, single_use _ Small.derived ready standing⟩
  rw [history]
  decide

end Client

end PrivateRetrieval
