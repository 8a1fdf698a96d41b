/-
Samples: which of the drawn hints a slot holds.

Slots are used again and again, so a slot does not tell which hint it holds.  A
sample does: the position of the hint's key among the keys of the build.  Samples
are no part of a session; they are followed beside it, from the milestones of its
history alone:

* **`Samples`** — which sample each slot holds, and which have been selected;
* **`Samples.Tracks`** — the hints of a session have the keys of these samples, and
  what has been selected is not held again once its query has ended;
* **`Client.refreshed_cases`** — what a slot holds once a query is answered: the new hint with a
  sample that was not in use, or what it held before;
* **`Client.Change.tracks`**, **`Client.Path.tracks`** — so it stays until the next
  build.
-/
import PrivateRetrieval.Proofs.Standing

namespace PrivateRetrieval

variable {σ K : Type}

/-- The position, among all keys of a build, of the key of a backup hint. -/
def Params.backupSample (p : Params) (group position : Nat) : Nat :=
  p.primaryCount + group * p.backupsPerChunk + position

theorem Params.backupSample_inj {p : Params} {group group' position position' : Nat}
    (within : position < p.backupsPerChunk) (within' : position' < p.backupsPerChunk)
    (same : p.backupSample group position = p.backupSample group' position') :
    group = group' ∧ position = position' := by
  have key : position + group * p.backupsPerChunk = position' + group' * p.backupsPerChunk := by
    rw [backupSample, backupSample] at same
    omega
  have pos : 0 < p.backupsPerChunk := Nat.lt_of_le_of_lt (Nat.zero_le _) within
  have groups := congrArg (· / p.backupsPerChunk) key
  rw [Nat.add_mul_div_right _ _ pos, Nat.add_mul_div_right _ _ pos, Nat.div_eq_of_lt within,
    Nat.div_eq_of_lt within', Nat.zero_add, Nat.zero_add] at groups
  subst groups
  exact ⟨rfl, Nat.add_right_cancel key⟩

/-- The samples of a session since its tables were built. -/
structure Samples where
  /-- The sample that each primary slot holds. -/
  origin : Nat → Nat
  /-- The samples that have been selected, in order. -/
  selected : List Nat

namespace Samples

/-- Right after a build the slots hold the first samples in order. -/
def fresh : Samples := ⟨id, []⟩

/-- What a milestone says about samples. -/
def mark (p : Params) (samples : Samples) : Milestone → Samples
  | .selected query =>
    { samples with selected := samples.selected ++ [samples.origin query.slot] }
  | .refreshed query position =>
    { samples with origin := fun slot =>
        if slot = query.slot then p.backupSample query.chunk position else samples.origin slot }
  | _ => samples

/-- The samples after a history that starts with a build. -/
def ofHistory (p : Params) (history : List Milestone) : Samples := history.foldl (mark p) fresh

end Samples

variable [Prf K] [KeySource σ K]

namespace Client

/-- The sample belongs to a primary hint or to a backup hint that has been used. -/
def InUse (client : Client σ K) (sample : Nat) : Prop :=
  sample < client.params.primaryCount
    ∨ ∃ chunk position, position < client.used chunk
      ∧ sample = client.params.backupSample chunk position

variable {client after : Client σ K} {query : Query}

omit [KeySource σ K] in
/-- The sample of the next backup hint is not in use. -/
theorem Consistent.not_inUse (consistent : client.Consistent) {chunk : Nat}
    (left : client.used chunk < client.params.backupsPerChunk) :
    ¬ client.InUse (client.params.backupSample chunk (client.used chunk)) := by
  rintro (primary | ⟨chunk', position, used, same⟩)
  · rw [Params.backupSample] at primary
    omega
  · have within := Nat.lt_of_lt_of_le used (consistent.used_le chunk')
    obtain ⟨rfl, rfl⟩ := Params.backupSample_inj left within same
    exact Nat.lt_irrefl _ used

omit [KeySource σ K] in
/-- The next backup hint of a chunk brings a sample that has not been in use. -/
theorem Consistent.not_inUse_of_next (consistent : client.Consistent)
    {hint : Hint K} {position : Nat}
    (next : client.nextBackup query.chunk = some (hint, position)) :
    ¬ client.InUse (client.params.backupSample query.chunk position) := by
  obtain ⟨position_eq, left, -⟩ := nextBackup_of_some next
  have position_eq : position = client.used query.chunk := position_eq
  rw [position_eq] at left ⊢
  exact consistent.not_inUse left

theorem Change.inUse {marks : List Milestone} (change : Change Peer.standing client marks after)
    (consistent : client.Consistent) {sample : Nat} (inUse : client.InUse sample) :
    after.InUse sample := by
  rw [InUse, change.params_eq]
  rcases inUse with primary | ⟨chunk, position, used, same⟩
  · exact .inl primary
  · have more := change.used_le_used consistent chunk
    exact .inr ⟨chunk, position, Nat.lt_of_lt_of_le used more, same⟩

end Client

/-- Samples that are those of a session, whose keys were drawn from `source`. -/
structure Samples.Tracks (p : Params) (source : σ) (samples : Samples) (client : Client σ K) :
    Prop where
  params : client.params = p
  /-- Hints have the keys of their samples. -/
  key : ∀ {slot hint}, client.tables.hint? slot = some hint →
    hint.key = keyAt source (samples.origin slot)
  backup : ∀ {group position hint}, client.tables.backup? group position = some hint →
    hint.key = keyAt source (p.backupSample group position)
  /-- No two slots hold one sample. -/
  apart : ∀ {slot slot' hint hint'}, client.tables.hint? slot = some hint →
    client.tables.hint? slot' = some hint' → samples.origin slot = samples.origin slot' →
    slot = slot'
  inUse : ∀ {slot hint}, client.tables.hint? slot = some hint → client.InUse (samples.origin slot)
  selected_inUse : ∀ {sample}, sample ∈ samples.selected → client.InUse sample
  /-- A hint that has been selected is gone once its query has ended. -/
  waiting : ∀ {slot hint}, client.tables.hint? slot = some hint →
    samples.origin slot ∈ samples.selected →
    ∃ query, client.pending = some query ∧ query.slot = slot
  nodup : samples.selected.Nodup

namespace Client

variable {client after : Client σ K} {query : Query} {p : Params} {source : σ} {samples : Samples}

theorem tracks_rebuilt {stream : List Chunk} {tables : Tables K}
    (built : tables.Built client.params client.source stream) :
    Samples.fresh.Tracks client.params client.source (client.rebuilt tables) where
  params := rfl
  key held := congrArg Hint.key (built.bare_hint held)
  backup held := congrArg Hint.key (built.bare_backup held)
  apart _ _ same := same
  inUse held := .inl (Nat.lt_of_lt_of_eq (Tables.lt_length_of_hint? held) built.primary_length)
  selected_inUse selected := absurd selected List.not_mem_nil
  waiting _ selected := absurd selected List.not_mem_nil
  nodup := List.nodup_nil

omit [Prf K] in
/-- A query that ends without a backup hint leaves its slot empty. -/
theorem tracks_retired (tracks : samples.Tracks p source client)
    (pending : client.pending = some query) {last : Client σ K}
    (params : last.params = client.params) (consumed : last.consumed = client.consumed)
    (tables : last.tables = client.tables.retire query.slot) : samples.Tracks p source last := by
  have inUse {sample : Nat} (before : client.InUse sample) : last.InUse sample := by
    rw [InUse, params]
    simp only [used, consumed]
    exact before
  have live {slot : Nat} {hint : Hint K} (held : last.tables.hint? slot = some hint) :
      slot ≠ query.slot ∧ client.tables.hint? slot = some hint := by
    rw [tables, Tables.hint?_retire] at held
    split at held
    · exact absurd held (by simp)
    · rename_i other
      exact ⟨other, held⟩
  refine ⟨params.trans tracks.params, ?_, ?_, ?_, ?_, ?_, ?_, tracks.nodup⟩
  · intro slot hint held
    exact tracks.key (live held).2
  · intro group position hint held
    rw [tables] at held
    exact tracks.backup held
  · intro slot slot' hint hint' held held' same
    exact tracks.apart (live held).2 (live held').2 same
  · intro slot hint held
    exact inUse (tracks.inUse (live held).2)
  · intro sample selected
    exact inUse (tracks.selected_inUse selected)
  · intro slot hint held selected
    obtain ⟨other, held⟩ := live held
    -- A selected sample belongs to the pending query, whose slot is empty now.
    obtain ⟨waiting, pending', own⟩ := tracks.waiting held selected
    cases Option.some.inj (pending'.symm.trans pending)
    exact absurd own.symm other

/-- A selected hint has not been selected before. -/
theorem tracks_awaiting (tracks : samples.Tracks p source client) (selects : client.Selects query) :
    (samples.mark p (.selected query)).Tracks p source (client.awaiting query) := by
  obtain ⟨hint, held, -⟩ := selects.held
  -- Nothing is pending, so that every live slot holds a sample of no query.
  have never {slot : Nat} {hint : Hint K} (held : client.tables.hint? slot = some hint) :
      samples.origin slot ∉ samples.selected := by
    intro selected
    obtain ⟨waiting, pending, -⟩ := tracks.waiting held selected
    exact absurd (pending.symm.trans selects.idle) (by simp)
  refine ⟨tracks.params, tracks.key, tracks.backup, tracks.apart, tracks.inUse, ?_, ?_, ?_⟩
  · intro sample selected
    rcases List.mem_append.mp selected with before | here
    · exact tracks.selected_inUse before
    · rw [List.mem_singleton.mp here]
      exact tracks.inUse held
  · intro slot hint' held' selected
    rcases List.mem_append.mp selected with before | here
    · exact absurd before (never held')
    · exact ⟨query, rfl, tracks.apart held held' (List.mem_singleton.mp here).symm⟩
  · refine List.nodup_append.mpr ⟨tracks.nodup, List.pairwise_singleton _ _, ?_⟩
    intro sample before other here same
    rw [List.mem_singleton.mp here] at same
    exact never held (same ▸ before)

/-! ### A refreshed slot -/

section Refreshed

variable {word : UInt64} {hint taken : Hint K} {position : Nat}

omit [Prf K]

omit [KeySource σ K] in
/-- A slot holds the new hint and its sample after a refresh, or what it held before. -/
theorem refreshed_cases (p : Params) (samples : Samples)
    (held : client.tables.hint? query.slot = some taken) {slot : Nat} {found : Hint K}
    (here : (client.refreshed query word hint position).tables.hint? slot = some found) :
    (slot = query.slot ∧ found = (hint.program query.index).xorParity word
      ∧ (samples.mark p (.refreshed query position)).origin slot
        = p.backupSample query.chunk position)
    ∨ (slot ≠ query.slot ∧ client.tables.hint? slot = some found
      ∧ (samples.mark p (.refreshed query position)).origin slot = samples.origin slot) := by
  rw [hint?_refreshed held] at here
  by_cases own : slot = query.slot
  · rw [if_pos own] at here
    exact .inl ⟨own, (Option.some.inj here).symm, if_pos own⟩
  · rw [if_neg own] at here
    exact .inr ⟨own, here, if_neg own⟩

/-- No slot holds a sample that is not in use. -/
theorem origin_ne_of_not_inUse (tracks : samples.Tracks p source client) {sample slot : Nat}
    {found : Hint K} (unused : ¬ client.InUse sample)
    (held : client.tables.hint? slot = some found) : samples.origin slot ≠ sample := by
  rintro rfl
  exact unused (tracks.inUse held)

theorem refreshed_key (tracks : samples.Tracks p source client)
    (held : client.tables.hint? query.slot = some taken)
    (there : client.tables.backup? query.chunk position = some hint) {slot : Nat} {found : Hint K}
    (here : (client.refreshed query word hint position).tables.hint? slot = some found) :
    found.key = keyAt source ((samples.mark p (.refreshed query position)).origin slot) := by
  rcases refreshed_cases p samples held here with ⟨-, rfl, origin⟩ | ⟨-, before, origin⟩
  · rw [origin]
    exact (tracks.backup there : hint.key = _)
  · rw [origin]
    exact tracks.key before

/-- Two slots that hold one sample are one: the new sample is held nowhere else. -/
theorem refreshed_apart (tracks : samples.Tracks p source client)
    (held : client.tables.hint? query.slot = some taken)
    (unused : ¬ client.InUse (p.backupSample query.chunk position))
    {slot slot' : Nat} {found found' : Hint K}
    (here : (client.refreshed query word hint position).tables.hint? slot = some found)
    (here' : (client.refreshed query word hint position).tables.hint? slot' = some found')
    (same : (samples.mark p (.refreshed query position)).origin slot
      = (samples.mark p (.refreshed query position)).origin slot') : slot = slot' := by
  rcases refreshed_cases p samples held here with ⟨own, -, origin⟩ | ⟨-, before, origin⟩
  · rcases refreshed_cases p samples held here' with ⟨own', -, origin'⟩ | ⟨-, before', origin'⟩
    · exact own.trans own'.symm
    · rw [origin, origin'] at same
      exact absurd same.symm (origin_ne_of_not_inUse tracks unused before')
  · rcases refreshed_cases p samples held here' with ⟨own', -, origin'⟩ | ⟨-, before', origin'⟩
    · rw [origin, origin'] at same
      exact absurd same (origin_ne_of_not_inUse tracks unused before)
    · rw [origin, origin'] at same
      exact tracks.apart before before' same

/-- A slot whose sample has been selected would be that of the query that has just ended, and this
one holds the new sample. -/
theorem refreshed_unselected (tracks : samples.Tracks p source client)
    (pending : client.pending = some query)
    (held : client.tables.hint? query.slot = some taken)
    (unused : ¬ client.InUse (p.backupSample query.chunk position)) {slot : Nat} {found : Hint K}
    (here : (client.refreshed query word hint position).tables.hint? slot = some found) :
    (samples.mark p (.refreshed query position)).origin slot ∉ samples.selected := by
  intro selected
  rcases refreshed_cases p samples held here with ⟨-, -, origin⟩ | ⟨other, before, origin⟩
  · rw [origin] at selected
    exact unused (tracks.selected_inUse selected)
  · rw [origin] at selected
    obtain ⟨waiting, pending', own⟩ := tracks.waiting before selected
    cases Option.some.inj (pending'.symm.trans pending)
    exact other own.symm

end Refreshed

theorem refreshed_inUse (tracks : samples.Tracks p source client) (consistent : client.Consistent)
    (pending : client.pending = some query) {word : UInt64} {hint : Hint K} {position : Nat}
    (next : client.nextBackup query.chunk = some (hint, position))
    (change : Change Peer.standing client [.refreshed query position]
      (client.refreshed query word hint position)) {slot : Nat} {found : Hint K}
    (here : (client.refreshed query word hint position).tables.hint? slot = some found) :
    (client.refreshed query word hint position).InUse
      ((samples.mark p (.refreshed query position)).origin slot) := by
  obtain ⟨taken, held, -⟩ := (consistent.awaits pending).held
  rcases refreshed_cases p samples held here with ⟨-, -, origin⟩ | ⟨-, before, origin⟩
  · -- The new sample is in use from now on, as one more backup hint of its chunk.
    refine .inr ⟨query.chunk, position, ?_, by rw [origin, ← tracks.params]; rfl⟩
    have within := (consistent.awaits pending).chunk_lt consistent.valid
    have position_eq : position = client.used query.chunk := (nextBackup_of_some next).1
    rw [used_refreshed (consistent.consumed_length.symm ▸ within), if_pos rfl, position_eq]
    exact Nat.lt_succ_self _
  · rw [origin]
    exact change.inUse consistent (tracks.inUse before)

/-- A backup hint that is put in place of a used one brings a sample that has not
been in use. -/
theorem tracks_refreshed (tracks : samples.Tracks p source client) (consistent : client.Consistent)
    (pending : client.pending = some query) {word : UInt64} {hint : Hint K} {position : Nat}
    (next : client.nextBackup query.chunk = some (hint, position))
    (change : Change Peer.standing client [.refreshed query position]
      (client.refreshed query word hint position)) :
    (samples.mark p (.refreshed query position)).Tracks p source
      (client.refreshed query word hint position) := by
  obtain ⟨taken, held, -⟩ := (consistent.awaits pending).held
  obtain ⟨-, -, there⟩ := nextBackup_of_some next
  have unused : ¬ client.InUse (p.backupSample query.chunk position) :=
    tracks.params ▸ consistent.not_inUse_of_next next
  refine ⟨tracks.params, ?_, ?_, ?_, ?_, ?_, ?_, tracks.nodup⟩
  · intro slot found here
    exact refreshed_key tracks held there here
  · intro group place found here
    exact tracks.backup (Tables.backup?_of_takeBackup here)
  · intro slot slot' found found' here here' same
    exact refreshed_apart tracks held unused here here' same
  · intro slot found here
    exact refreshed_inUse tracks consistent pending next change here
  · intro sample selected
    exact change.inUse consistent (tracks.selected_inUse selected)
  · intro slot found here selected
    exact absurd selected (refreshed_unselected tracks pending held unused here)

/-! ### Along a history -/

theorem Change.tracks {marks : List Milestone} (change : Change Peer.standing client marks after)
    (consistent : client.Consistent) (tracks : samples.Tracks p source client) :
    (marks.foldl (Samples.mark p) samples).Tracks p source after := by
  cases change with
  | draw _ =>
    exact ⟨tracks.params, tracks.key, tracks.backup, tracks.apart, tracks.inUse,
      tracks.selected_inUse, tracks.waiting, tracks.nodup⟩
  | select selects => exact tracks_awaiting tracks selects
  | refresh pending next left =>
    exact tracks_refreshed tracks consistent pending next (.refresh pending next left)
  | exhaust pending next left => exact tracks_retired tracks pending rfl rfl rfl
  | discard pending => exact tracks_retired tracks pending rfl rfl rfl
  | rebuild built sent => exact sent.elim

theorem Path.tracks {first last : Client σ K} {history : List Milestone}
    (path : Path Peer.standing first history last) : ∀ {samples : Samples}, first.Consistent →
      samples.Tracks p source first →
      (history.foldl (Samples.mark p) samples).Tracks p source last := by
  induction path with
  | nil => exact fun _ tracks => tracks
  | cons change _ ih =>
    intro samples consistent tracks
    rw [List.foldl_append]
    exact ih (change.consistent consistent) (change.tracks consistent tracks)

end Client

end PrivateRetrieval
