/-
Which hint serves an index.

A selection looks at one element of every live hint: the one in the chunk of the index.  No other
element could be the index, since the element of a chunk lies inside that chunk, whether it comes
from the key or is a point to which the hint was pinned.  So nothing is overlooked:

* **`Hint.passes_iff`** — to look at the chunk of an index is to look at all chunks;
* **`Client.Covers`** — the trace of a live hint passes through an index, in whichever chunk
  (`Client.covers_iff`);
* **`Client.Selection`** — what is selected of an index, and for which reason it is refused
  (`Client.selection_of_valid`);
* **`Client.selection`** — this is so in all states, whatever was answered before.
-/
import PrivateRetrieval.Proofs.Consistency

namespace PrivateRetrieval

variable {σ K : Type} [Prf K]

namespace Hint

/-- To look at the chunk of an index is to look at all chunks. -/
theorem passes_iff (hint : Hint K) {chunkSize chunkCount index : Nat} (pos : 0 < chunkSize)
    (within : index / chunkSize < chunkCount) :
    (∃ chunk < chunkCount, hint.elementAt chunk chunkSize = index)
      ↔ hint.elementAt (index / chunkSize) chunkSize = index := by
  constructor
  · rintro ⟨chunk, -, rfl⟩
    rw [hint.elementAt_div pos]
  · exact fun met => ⟨_, within, met⟩

end Hint

namespace Client

variable {client : Client σ K} {index : Nat}

/-- The hint of a slot is live, and its trace passes through an index in one of all chunks. -/
def Covers (client : Client σ K) (slot index : Nat) : Prop :=
  ∃ hint, client.tables.hint? slot = some hint
    ∧ ∃ chunk < client.params.chunkCount, hint.elementAt chunk client.params.chunkSize = index

theorem covers_iff (valid : client.params.Valid) (inRange : index < client.params.dbSize)
    {slot : Nat} : client.Covers slot index
      ↔ ∃ hint, client.tables.hint? slot = some hint
        ∧ hint.elementAt (client.params.chunkOf index) client.params.chunkSize = index :=
  exists_congr fun hint => and_congr_right fun _ =>
    hint.passes_iff valid.chunkSize_pos (valid.chunkOf_lt inRange)

theorem firstThrough_eq_some_iff (valid : client.params.Valid)
    (inRange : index < client.params.dbSize) {slot : Nat} :
    client.tables.firstThrough index (client.params.chunkOf index) client.params.chunkSize
      = some slot ↔ client.Covers slot index ∧ ∀ earlier < slot, ¬ client.Covers earlier index := by
  simp only [Tables.firstThrough_eq_some_iff, covers_iff valid inRange, not_exists, not_and]

theorem firstThrough_eq_none_iff (valid : client.params.Valid)
    (inRange : index < client.params.dbSize) :
    client.tables.firstThrough index (client.params.chunkOf index) client.params.chunkSize = none
      ↔ ∀ slot, ¬ client.Covers slot index := by
  simp only [Tables.firstThrough_eq_none_iff, covers_iff valid inRange, not_exists, not_and]

/-- An index that is not refused before hints are looked at. -/
structure Admits (client : Client σ K) (index : Nat) : Prop where
  idle : client.pending = none
  inRange : index < client.params.dbSize
  fresh : client.cached index = none

/-- What is selected of an index. What refuses it comes in this order, and changes nothing. -/
structure Selection (client : Client σ K) (index : Nat) : Prop where
  busy : ∀ {query}, client.pending = some query →
    select index client = ⟨.error .queryPending, client, []⟩
  past : client.pending = none → client.params.dbSize ≤ index →
    select index client = ⟨.error (.indexOutOfRange index client.params.dbSize), client, []⟩
  known : client.pending = none → index < client.params.dbSize →
    ∀ {word}, client.cached index = some word →
      select index client = ⟨.error (.alreadyCached index), client, []⟩
  missed : client.Admits index → (∀ slot, ¬ client.Covers slot index) →
    select index client
      = ⟨.error (.hintMiss index), client, [.uncovered index (client.params.chunkOf index)]⟩
  hit : client.Admits index → ∀ {slot}, client.Covers slot index →
    (∀ earlier < slot, ¬ client.Covers earlier index) →
      select index client = ⟨.ok ⟨index, client.params.chunkOf index, slot⟩,
        { client with pending := some ⟨index, client.params.chunkOf index, slot⟩ }, []⟩
  ok_iff : (∃ query, (select index client).outcome = .ok query)
    ↔ client.Admits index ∧ ∃ slot, client.Covers slot index
  ok : ∀ {query}, (select index client).outcome = .ok query →
    query.index = index ∧ query.chunk = client.params.chunkOf index
      ∧ client.Covers query.slot index
      ∧ (∀ earlier < query.slot, ¬ client.Covers earlier index)
      ∧ (select index client).state = { client with pending := some query }
  missed_iff : (select index client).outcome = .error (.hintMiss index)
    ↔ client.Admits index ∧ ∀ slot, ¬ client.Covers slot index

/-- An index is admitted or refused for one of three reasons. -/
theorem admits_or_refused (client : Client σ K) (index : Nat) :
    client.Admits index ∨ ∃ cause, select index client = ⟨.error cause, client, []⟩
      ∧ ∀ missed, cause ≠ .hintMiss missed := by
  cases pending : client.pending with
  | some query => exact .inr ⟨_, select_of_pending pending index, fun _ => by simp⟩
  | none =>
    by_cases past : client.params.dbSize ≤ index
    · exact .inr ⟨_, select_of_past pending past, fun _ => by simp⟩
    have inRange : index < client.params.dbSize := Nat.lt_of_not_le past
    cases known : client.cached index with
    | some word => exact .inr ⟨_, select_of_known pending inRange known, fun _ => by simp⟩
    | none => exact .inl ⟨pending, inRange, known⟩

theorem Admits.select_of_covers (admits : client.Admits index) (valid : client.params.Valid)
    {slot : Nat} (covers : client.Covers slot index)
    (least : ∀ earlier < slot, ¬ client.Covers earlier index) :
    select index client = ⟨.ok ⟨index, client.params.chunkOf index, slot⟩,
      client.awaiting ⟨index, client.params.chunkOf index, slot⟩, []⟩ := by
  have hit := (firstThrough_eq_some_iff valid admits.inRange).mpr ⟨covers, least⟩
  rw [select_of_unknown admits.idle admits.inRange admits.fresh valid.chunkSize_pos, hit]

theorem Admits.select_of_uncovered (admits : client.Admits index) (valid : client.params.Valid)
    (never : ∀ slot, ¬ client.Covers slot index) :
    select index client
      = ⟨.error (.hintMiss index), client, [.uncovered index (client.params.chunkOf index)]⟩ := by
  have missed := (firstThrough_eq_none_iff valid admits.inRange).mpr never
  rw [select_of_unknown admits.idle admits.inRange admits.fresh valid.chunkSize_pos, missed]

/-- Of the slots that cover an admitted index the least one is selected, if there are any. -/
theorem Admits.select_cases (admits : client.Admits index) (valid : client.params.Valid) :
    (∃ slot, client.Covers slot index
      ∧ (select index client).outcome = .ok ⟨index, client.params.chunkOf index, slot⟩)
    ∨ ((∀ slot, ¬ client.Covers slot index)
      ∧ (select index client).outcome = .error (.hintMiss index)) := by
  cases found : client.tables.firstThrough index (client.params.chunkOf index)
      client.params.chunkSize with
  | some slot =>
    obtain ⟨covers, least⟩ := (firstThrough_eq_some_iff valid admits.inRange).mp found
    exact .inl ⟨slot, covers, congrArg Step.outcome (admits.select_of_covers valid covers least)⟩
  | none =>
    have never := (firstThrough_eq_none_iff valid admits.inRange).mp found
    exact .inr ⟨never, congrArg Step.outcome (admits.select_of_uncovered valid never)⟩

/-- A hint was selected for an admitted index, and it is the first that covers it. -/
theorem Selects.chosen {query : Query} (selects : client.Selects query)
    (valid : client.params.Valid) :
    client.Admits query.index ∧ client.Covers query.slot query.index
      ∧ ∀ earlier < query.slot, ¬ client.Covers earlier query.index := by
  have hit := selects.hit
  rw [selects.chunk, firstThrough_eq_some_iff valid selects.inRange] at hit
  exact ⟨⟨selects.idle, selects.inRange, selects.fresh⟩, hit⟩

theorem selection_of_valid (valid : client.params.Valid) (index : Nat) :
    client.Selection index := by
  refine {
    busy := fun pending => select_of_pending pending index
    past := select_of_past
    known := fun idle inRange => select_of_known idle inRange
    missed := fun admits => admits.select_of_uncovered valid
    hit := fun admits => admits.select_of_covers valid
    ok_iff := ⟨?_, ?_⟩
    ok := ?_
    missed_iff := ⟨?_, ?_⟩ }
  · rintro ⟨query, selected⟩
    obtain ⟨selects, rfl, -⟩ := select_of_ok selected
    obtain ⟨admits, covers, -⟩ := selects.chosen valid
    exact ⟨admits, query.slot, covers⟩
  · rintro ⟨admits, slot, covers⟩
    rcases admits.select_cases valid with ⟨slot, -, selected⟩ | ⟨never, -⟩
    · exact ⟨_, selected⟩
    · exact absurd covers (never slot)
  · intro query selected
    obtain ⟨selects, rfl, eq⟩ := select_of_ok selected
    obtain ⟨-, covers, least⟩ := selects.chosen valid
    exact ⟨rfl, selects.chunk, covers, least, congrArg Step.state eq⟩
  · -- What is refused before hints are looked at is refused for another reason.
    intro missed
    rcases client.admits_or_refused index with admits | ⟨cause, eq, other⟩
    · rcases admits.select_cases valid with ⟨slot, -, selected⟩ | ⟨never, -⟩
      · exact absurd (selected.symm.trans missed) (by simp)
      · exact ⟨admits, never⟩
    · exact absurd (Outcome.error.inj ((congrArg Step.outcome eq).symm.trans missed)) (other _)
  · rintro ⟨admits, never⟩
    exact congrArg Step.outcome (admits.select_of_uncovered valid never)

/-- **Selection.**  Whatever was answered before, a query is made of an index just if none is
pending, the index is in the database and its word is not known, and a live hint passes through it
in any chunk; then it is the first such hint.  No hint that passes through it is ever missed. -/
theorem selection [KeySource σ K] [RandomSource σ] {size : Nat} {p : Params}
    (derived : p.Derived size) {source : σ} {stream : List Chunk}
    (ready : (setup (K := K) p source stream).outcome = .ok ()) (run : List Operation)
    (index : Nat) :
    let last := (setup (K := K) p source stream).state.after run
    last.params = p ∧ last.Selection index := by
  intro last
  have params : last.params = p := (params_after _ run).trans (setup_params ready)
  exact ⟨params, selection_of_valid (params ▸ derived.valid) index⟩

/-- Both hints pass through index 3, and only the second is left when the first is retired; then
nothing passes through index 0.  If instead the first is pinned to index 0, it follows its new key
in the other chunk, through index 2. -/
theorem selection_around_first_hint :
    let retired := Small.client.after [.select 3, .discard]
    let pinned := Small.client.after [.select 0, .recover ⟨0, 0, 0⟩ [10, 20]]
    Small.params.Derived 4
    ∧ (setup (K := LiteralKey) Small.params Small.source Small.server.chunks).outcome = .ok ()
    ∧ (select 3 Small.client).outcome = .ok ⟨3, 1, 0⟩
    ∧ (retired.Covers 1 3 ∧ ¬ retired.Covers 0 3) ∧ (∀ slot, ¬ retired.Covers slot 0)
    ∧ pinned.Covers 0 2 := by
  intro retired pinned
  have both (run : List Operation) (index : Nat) :=
    (selection Small.derived Small.setup_ok run index).2
  have first : (select 3 Small.client).outcome = .ok ⟨3, 1, 0⟩ := by decide
  have second : (select 3 retired).outcome = .ok ⟨3, 1, 1⟩ := by decide
  have missed : (select 0 retired).outcome = .error (.hintMiss 0) := by decide
  have other : (select 2 pinned).outcome = .ok ⟨2, 1, 0⟩ := by decide
  obtain ⟨-, -, covers, least, -⟩ := (both [.select 3, .discard] 3).ok second
  refine ⟨Small.derived, Small.setup_ok, first, ⟨covers, least 0 (by decide)⟩, ?_, ?_⟩
  · exact ((both [.select 3, .discard] 0).missed_iff.mp missed).2
  · exact ((both [.select 0, .recover ⟨0, 0, 0⟩ [10, 20]] 2).ok other).2.2.1

end Client

end PrivateRetrieval
