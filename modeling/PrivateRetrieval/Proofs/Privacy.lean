/-
What one query shows to the server.

The keys of a fresh client spell out a table of traces.  A query for an index takes
the first trace through it and sends the offsets of all other chunks, in order: which
trace that is depends on the index, and so does the chunk that is left out.  Over all
tables nothing of this shows:

* **`Scripted.ofTable`**, **`Client.ofTable`** — the keys of a table, and the client
  that is set up with them;
* **`Client.Lays`** — its primary hints have the traces of the table;
* **`Client.Lays.sends_iff`**, **`Client.Lays.misses_iff`** — what is sent for an index
  is what the table leaves at its offset (`TraceTable.leaves`);
* **`Client.one_query_privacy`** — every vector is sent for every index by equally many
  tables, and every index is missed by equally many.
-/
import PrivateRetrieval.Prf.Literal
import PrivateRetrieval.Proofs.Consistency
import PrivateRetrieval.Proofs.TraceTables

namespace PrivateRetrieval

variable {σ K : Type} {rows count size : Nat}

/-! ### Keys that are traces -/

/-- The key with the words of a trace. -/
def LiteralKey.ofTrace (trace : Fin count → Fin size) : LiteralKey :=
  ⟨List.ofFn fun chunk => UInt64.ofNat (trace chunk)⟩

/-- A key that spells out a trace has this trace, if its offsets are words. -/
theorem LiteralKey.keyOffset_ofTrace (fits : size ≤ UInt64.size)
    (trace : Fin count → Fin size) (chunk : Fin count) :
    Hint.keyOffset (ofTrace trace) chunk size = trace chunk := by
  have below : (trace chunk : Nat) < UInt64.size := Nat.lt_of_lt_of_le (trace chunk).isLt fits
  show ((List.ofFn fun chunk => UInt64.ofNat (trace chunk)).getD chunk 0).toNat % size = _
  rw [List.getD_eq_getElem?_getD, List.getElem?_ofFn, dif_pos chunk.isLt, Option.getD_some,
    UInt64.toNat_ofNat_of_lt' below, Nat.mod_eq_of_lt (trace chunk).isLt]

namespace Scripted

/-- A source whose script begins with the traces of a table. -/
def ofTable (source : σ) (backups : List LiteralKey) (table : TraceTable rows count size) :
    Scripted σ :=
  ⟨source, List.ofFn (fun row => LiteralKey.ofTrace (table row)) ++ backups⟩

theorem skipKeys_eq (s : Scripted σ) (position : Nat) :
    skipKeys LiteralKey position s = ⟨s.source, s.script.drop position⟩ := by
  induction position generalizing s with
  | zero => rfl
  | succ position ih =>
    rw [skipKeys, ih]
    exact congrArg (Scripted.mk s.source) List.drop_tail

theorem keyAt_eq (s : Scripted σ) (position : Nat) :
    keyAt (K := LiteralKey) s position = s.script.getD position ⟨[]⟩ := by
  rw [keyAt, skipKeys_eq, List.getD_eq_getElem?_getD, ← List.head?_drop,
    ← List.headD_eq_head?_getD]
  rfl

theorem keyAt_ofTable (source : σ) (backups : List LiteralKey)
    (table : TraceTable rows count size) (row : Fin rows) :
    keyAt (K := LiteralKey) (ofTable source backups table) row
      = LiteralKey.ofTrace (table row) := by
  have within : (row : Nat)
      < (List.ofFn fun row => LiteralKey.ofTrace (table row)).length := by
    rw [List.length_ofFn]
    exact row.isLt
  rw [keyAt_eq, ofTable, List.getD_eq_getElem?_getD, List.getElem?_append_left within,
    List.getElem?_eq_getElem within, Option.getD_some, List.getElem_ofFn]

end Scripted

/-! ### What is sent -/

/-- Where an index lies: in which chunk, and at which offset there. -/
structure Params.Places (p : Params) (index : Nat) (chunk : Fin p.chunkCount)
    (offset : Fin p.chunkSize) : Prop where
  inRange : index < p.dbSize
  inChunk : p.chunkOf index = chunk
  atOffset : p.offsetInChunk index = offset

variable {p : Params}

theorem Params.Valid.places (valid : p.Valid) {index : Nat} (inRange : index < p.dbSize) :
    ∃ chunk offset, p.Places index chunk offset :=
  ⟨⟨_, valid.chunkOf_lt inRange⟩, ⟨_, Nat.mod_lt index valid.chunkSize_pos⟩, inRange, rfl, rfl⟩

namespace Client

section Sends

variable [Prf K]

/-- A query for the index is selected, and `vector` is what it sends. -/
def Sends (client : Client σ K) (index : Nat) (vector : List Nat) : Prop :=
  ∃ query, (select index client).outcome = .ok query
    ∧ (select index client).state.prepare query = .ok vector

/-- No hint is found for the index. -/
def Misses (client : Client σ K) (index : Nat) : Prop :=
  (select index client).outcome = .error (.hintMiss index)

theorem Sends.unique {client : Client σ K} {index : Nat} {vector vector' : List Nat}
    (sends : client.Sends index vector) (sends' : client.Sends index vector') :
    vector = vector' := by
  obtain ⟨query, selected, sent⟩ := sends
  obtain ⟨query', selected', sent'⟩ := sends'
  cases selected.symm.trans selected'
  exact Outcome.ok.inj (sent.symm.trans sent')

theorem Sends.not_misses {client : Client σ K} {index : Nat} {vector : List Nat}
    (sends : client.Sends index vector) : ¬ client.Misses index := by
  obtain ⟨query, selected, -⟩ := sends
  intro missed
  exact absurd (selected.symm.trans missed) (by simp)

/-- A client that has not asked yet and whose primary hints have the traces of a table. -/
structure Lays (client : Client σ K) (p : Params)
    (table : TraceTable p.primaryCount p.chunkCount p.chunkSize) : Prop where
  params : client.params = p
  idle : client.pending = none
  unknown : ∀ index, client.cached index = none
  live : ∀ row : Fin p.primaryCount, ∃ hint, client.tables.hint? row = some hint
  slot_lt : ∀ {slot hint}, client.tables.hint? slot = some hint → slot < p.primaryCount
  offsetAt : ∀ {row : Fin p.primaryCount} {hint}, client.tables.hint? row = some hint →
    ∀ chunk : Fin p.chunkCount, hint.offsetAt chunk p.chunkSize = table row chunk

namespace Lays

variable {client : Client σ K} {table : TraceTable p.primaryCount p.chunkCount p.chunkSize}
  {index : Nat} {chunk : Fin p.chunkCount} {offset : Fin p.chunkSize}

/-- Selection finds the first trace of the table with the offset of the index. -/
theorem firstThrough (lays : client.Lays p table) (places : p.Places index chunk offset) :
    client.tables.firstThrough index (p.chunkOf index) p.chunkSize
      = (table.first chunk offset).map Fin.val := by
  have through {row : Fin p.primaryCount} {hint : Hint K}
      (held : client.tables.hint? row = some hint) :
      hint.elementAt (p.chunkOf index) p.chunkSize = index ↔ table row chunk = offset := by
    have pos := Nat.lt_of_le_of_lt (Nat.zero_le _) offset.isLt
    have inChunk : index / p.chunkSize = chunk := places.inChunk
    have atOffset : index % p.chunkSize = offset := places.atOffset
    refine (hint.elementAt_eq_iff pos index).trans ?_
    rw [inChunk, atOffset, lays.offsetAt held, Fin.val_inj]
  -- The slots are the rows in order, so that the first hit has the same place in both.
  cases found : table.first chunk offset with
  | none =>
    rw [TraceTable.first_eq_none_iff] at found
    rw [Option.map_none, Tables.firstThrough_eq_none_iff]
    intro slot hint held met
    have held : client.tables.hint? (⟨slot, lays.slot_lt held⟩ : Fin _) = some hint := held
    exact found _ ((through held).mp met)
  | some row =>
    obtain ⟨here, before⟩ := TraceTable.first_eq_some_iff.mp found
    obtain ⟨hint, held⟩ := lays.live row
    rw [Option.map_some, Tables.firstThrough_eq_some_iff]
    refine ⟨⟨hint, held, (through held).mpr here⟩, fun earlier lt other held' met => ?_⟩
    have held' : client.tables.hint? (⟨earlier, lays.slot_lt held'⟩ : Fin _) = some other := held'
    exact before ⟨earlier, lays.slot_lt held'⟩ lt ((through held').mp met)

theorem trace_eq (lays : client.Lays p table) {row : Fin p.primaryCount} {hint : Hint K}
    (held : client.tables.hint? row = some hint) :
    hint.trace p.chunkCount p.chunkSize = List.ofFn fun chunk => (table row chunk : Nat) := by
  refine List.ext_getElem ?_ fun chunk within within' => ?_
  · rw [Hint.length_trace, List.length_ofFn]
  · rw [Hint.length_trace] at within
    simp only [Hint.trace, List.getElem_map, List.getElem_range, List.getElem_ofFn]
    exact lays.offsetAt held ⟨chunk, within⟩

theorem misses (lays : client.Lays p table) (places : p.Places index chunk offset)
    (left : table.leaves chunk offset = none) : client.Misses index := by
  obtain ⟨rfl, idle, unknown, -, -, -⟩ := id lays
  have pos := Nat.lt_of_le_of_lt (Nat.zero_le _) offset.isLt
  have found := lays.firstThrough places
  rw [Option.map_eq_none_iff.mp left, Option.map_none] at found
  rw [Misses, select_of_unknown idle places.inRange (unknown index) pos, found]

/-- What is sent is what is left of the first trace through the index. -/
theorem sends (lays : client.Lays p table) (places : p.Places index chunk offset)
    {vector : Fin (p.chunkCount - 1) → Fin p.chunkSize}
    (left : table.leaves chunk offset = some vector) :
    client.Sends index (List.ofFn fun place => (vector place : Nat)) := by
  obtain ⟨rfl, idle, unknown, live, -, -⟩ := id lays
  have pos := Nat.lt_of_le_of_lt (Nat.zero_le _) offset.isLt
  obtain ⟨row, first, rfl⟩ := Option.map_eq_some_iff.mp left
  obtain ⟨hint, held⟩ := live row
  have found := lays.firstThrough places
  rw [first, Option.map_some] at found
  have inside : client.params.chunkOf index < client.params.chunkCount := by
    rw [places.inChunk]
    exact chunk.isLt
  have selected := select_of_unknown idle places.inRange (unknown index) pos
  rw [found] at selected
  let query : Query := ⟨index, client.params.chunkOf index, row⟩
  have prepared : (client.awaiting query).prepare query = .ok
      ((hint.trace client.params.chunkCount client.params.chunkSize).eraseIdx
        (client.params.chunkOf index)) :=
    prepare_of_pending (client.pending_awaiting query) held pos inside
  refine ⟨query, congrArg Step.outcome selected, ?_⟩
  rw [selected]
  refine prepared.trans (congrArg Outcome.ok ?_)
  -- What is sent is the row of the table without the entry in the chunk of the index.
  calc (hint.trace client.params.chunkCount client.params.chunkSize).eraseIdx
        (client.params.chunkOf index)
      = ((List.ofFn (table row)).map Fin.val).eraseIdx chunk := by
        rw [lays.trace_eq held, places.inChunk, List.map_ofFn]
        rfl
    _ = (List.ofFn (puncture chunk (table row)).2).map Fin.val := by
        rw [ofFn_puncture_snd, List.eraseIdx_map]
    _ = List.ofFn fun place => ((puncture chunk (table row)).2 place : Nat) := List.map_ofFn

theorem misses_iff (lays : client.Lays p table) (places : p.Places index chunk offset) :
    client.Misses index ↔ table.leaves chunk offset = none := by
  refine ⟨fun missed => ?_, lays.misses places⟩
  cases left : table.leaves chunk offset with
  | none => rfl
  | some vector => exact absurd missed (lays.sends places left).not_misses

theorem sends_iff (lays : client.Lays p table) (places : p.Places index chunk offset)
    (vector : Fin (p.chunkCount - 1) → Fin p.chunkSize) :
    client.Sends index (List.ofFn fun place => (vector place : Nat))
      ↔ table.leaves chunk offset = some vector := by
  refine ⟨fun sent => ?_, lays.sends places⟩
  cases left : table.leaves chunk offset with
  | none => exact absurd (lays.misses places left) sent.not_misses
  | some other =>
    have same := List.ofFn_injective (sent.unique (lays.sends places left))
    refine congrArg some (funext fun place => Fin.val_injective ?_)
    exact (congrFun same place).symm

end Lays

end Sends

/-! ### Fresh clients -/

/-- The client that is set up with the keys of a table. -/
def ofTable (p : Params) (source : σ) (backups : List LiteralKey) (stream : List Chunk)
    (table : TraceTable p.primaryCount p.chunkCount p.chunkSize) :
    Client (Scripted σ) LiteralKey :=
  (setup p (Scripted.ofTable source backups table) stream).state

theorem lays_ofTable (fits : p.chunkSize ≤ UInt64.size) {source : σ} {backups : List LiteralKey}
    {stream : List Chunk} {table : TraceTable p.primaryCount p.chunkCount p.chunkSize}
    (ready : (setup (K := LiteralKey) p (Scripted.ofTable source backups table) stream).outcome
      = .ok ()) : (ofTable p source backups stream table).Lays p table := by
  obtain ⟨tables, built, left⟩ := setup_of_ok ready
  rw [ofTable, left]
  refine ⟨rfl, rfl, fun _ => rfl, fun row => ?_, fun {slot hint} held => ?_,
    fun {row hint} held chunk => ?_⟩
  · have image := built.hint? row
    rw [if_pos row.isLt, Option.map_eq_some_iff] at image
    obtain ⟨hint, held, -⟩ := image
    exact ⟨hint, held⟩
  · exact Nat.lt_of_lt_of_eq (Tables.lt_length_of_hint? held) built.primary_length
  · have bare := built.bare_hint held
    rw [Scripted.keyAt_ofTable] at bare
    calc hint.offsetAt chunk p.chunkSize
        = hint.bare.offsetAt chunk p.chunkSize := rfl
      _ = Hint.keyOffset (LiteralKey.ofTrace (table row)) chunk p.chunkSize := by rw [bare]; rfl
      _ = table row chunk := LiteralKey.keyOffset_ofTrace fits (table row) chunk

/-- Which vectors are sent, over all tables, by clients that are set up with them. -/
structure Uniform (p : Params)
    (fresh : TraceTable p.primaryCount p.chunkCount p.chunkSize → Client σ LiteralKey) :
    Prop where
  /-- An index is missed, or its query sends an offset for every chunk but one. -/
  ends : ∀ table, ∀ index < p.dbSize, (fresh table).Misses index
    ∨ ∃ vector : Fin p.puncturedLength → Fin p.chunkSize,
      (fresh table).Sends index (List.ofFn fun place => (vector place : Nat))
  card_sends : ∀ x < p.dbSize, ∀ y < p.dbSize,
    ∀ v w : Fin p.puncturedLength → Fin p.chunkSize,
      Nat.card {table // (fresh table).Sends x (List.ofFn fun place => (v place : Nat))}
        = Nat.card {table // (fresh table).Sends y (List.ofFn fun place => (w place : Nat))}
  card_misses : ∀ x < p.dbSize, ∀ y < p.dbSize,
    Nat.card {table // (fresh table).Misses x} = Nat.card {table // (fresh table).Misses y}
  /-- An index is missed if every trace has one of the other offsets. -/
  card_misses_eq : ∀ x < p.dbSize, Nat.card {table // (fresh table).Misses x}
    = ((p.chunkSize - 1) * p.chunkSize ^ p.puncturedLength) ^ p.primaryCount
  /-- All other tables are shared out evenly among the vectors. -/
  card_sends_eq : ∀ x < p.dbSize, ∀ v : Fin p.puncturedLength → Fin p.chunkSize,
    Nat.card {table // (fresh table).Misses x} + p.chunkSize ^ p.puncturedLength
        * Nat.card {table // (fresh table).Sends x (List.ofFn fun place => (v place : Nat))}
      = (p.chunkSize ^ p.chunkCount) ^ p.primaryCount

theorem uniform_of_lays (valid : p.Valid)
    {fresh : TraceTable p.primaryCount p.chunkCount p.chunkSize → Client σ LiteralKey}
    (lays : ∀ table, (fresh table).Lays p table) : Uniform p fresh := by
  -- Whether a hint is found, and what is sent, is told by the entries of the table at the place of
  -- the index.
  have misses {index : Nat} {chunk : Fin p.chunkCount} {offset : Fin p.chunkSize}
      (places : p.Places index chunk offset) : Nat.card {table // (fresh table).Misses index}
        = Nat.card {table : TraceTable p.primaryCount p.chunkCount p.chunkSize //
            table.leaves chunk offset = none} :=
    Nat.card_congr (Equiv.subtypeEquivRight fun table => (lays table).misses_iff places)
  have sends {index : Nat} {chunk : Fin p.chunkCount} {offset : Fin p.chunkSize}
      (places : p.Places index chunk offset) (vector : Fin p.puncturedLength → Fin p.chunkSize) :
      Nat.card {table // (fresh table).Sends index (List.ofFn fun place => (vector place : Nat))}
        = Nat.card {table : TraceTable p.primaryCount p.chunkCount p.chunkSize //
            table.leaves chunk offset = some vector} :=
    Nat.card_congr (Equiv.subtypeEquivRight fun table => (lays table).sends_iff places vector)
  have missed : ∀ x < p.dbSize, Nat.card {table // (fresh table).Misses x}
      = ((p.chunkSize - 1) * p.chunkSize ^ p.puncturedLength) ^ p.primaryCount := by
    intro x inRange
    obtain ⟨chunk, offset, places⟩ := valid.places inRange
    rw [misses places, TraceTable.card_leaves_none]
    rfl
  refine ⟨?_, ?_, ?_, missed, ?_⟩
  · intro table index inRange
    obtain ⟨chunk, offset, places⟩ := valid.places inRange
    cases left : table.leaves chunk offset with
    | none => exact .inl ((lays table).misses places left)
    | some vector => exact .inr ⟨vector, (lays table).sends places left⟩
  · intro x inRange y inRange' v w
    obtain ⟨chunk, offset, places⟩ := valid.places inRange
    obtain ⟨chunk', offset', places'⟩ := valid.places inRange'
    rw [sends places, sends places']
    exact TraceTable.card_leaves_eq chunk chunk' offset offset' v w
  · intro x inRange y inRange'
    rw [missed x inRange, missed y inRange']
  · intro x inRange v
    obtain ⟨chunk, offset, places⟩ := valid.places inRange
    rw [misses places, sends places]
    exact TraceTable.card_leaves chunk offset v

/-- **Privacy of one query.**  Whatever the words of the database and the keys of the
backup hints, over all tables of traces every vector is sent for every index equally
often, and every index is missed equally often: the vector that is sent is uniform and
independent of the index, of its chunk and of its offset.  The number of words has to be
a word itself. -/
theorem one_query_privacy {size : Nat} (fits : size < UInt64.size) (derived : p.Derived size)
    (source : σ) (backups : List LiteralKey) {stream : List Chunk}
    (length : stream.length = p.chunkCount)
    (lengths : ∀ words ∈ stream, words.length = p.chunkSize) :
    (∀ table : TraceTable p.primaryCount p.chunkCount p.chunkSize,
      (setup (K := LiteralKey) p (Scripted.ofTable source backups table) stream).outcome = .ok ())
    ∧ Uniform p (ofTable p source backups stream) := by
  have ready (table : TraceTable p.primaryCount p.chunkCount p.chunkSize) :
      (setup (K := LiteralKey) p (Scripted.ofTable source backups table) stream).outcome
        = .ok () :=
    rebuild_ok derived.valid length lengths
  -- No chunk is longer than the database.
  have words : p.chunkSize ≤ UInt64.size := by
    have square := sqrtFloor_sq_le p.dbSize
    rw [← derived.valid.chunkSize_eq, derived.dbSize_eq] at square
    have pos := derived.valid.chunkSize_pos
    have le : p.chunkSize ≤ p.chunkSize * p.chunkSize := Nat.le_mul_of_pos_left _ pos
    omega
  exact ⟨ready, uniform_of_lays derived.valid fun table => lays_ofTable words (ready table)⟩

/-- Two traces through two chunks of two words: of the sixteen tables four have no trace
through an index, and each of the two vectors is sent by six, for the first index as well
as for the last. -/
theorem one_query_privacy_of_four_words :
    let fresh := ofTable Small.params (Keystream.ofSeed []) [⟨[0, 0]⟩, ⟨[1, 0]⟩]
      [[10, 20], [30, 40]]
    Nat.card {table // (fresh table).Misses 0} = 4
      ∧ Nat.card {table // (fresh table).Sends 0 [0]} = 6
      ∧ Nat.card {table // (fresh table).Sends 3 [1]} = 6 := by
  intro fresh
  have shape : ∀ words ∈ ([[10, 20], [30, 40]] : List Chunk),
      words.length = Small.params.chunkSize := by decide
  obtain ⟨-, uniform⟩ := one_query_privacy (by decide) Small.derived (Keystream.ofSeed [])
    [⟨[0, 0]⟩, ⟨[1, 0]⟩] rfl shape
  have misses : Nat.card {table // (fresh table).Misses 0} = 4 :=
    uniform.card_misses_eq 0 (by decide)
  have zeros : Nat.card {table // (fresh table).Misses 0}
      + 2 * Nat.card {table // (fresh table).Sends 0 [0]} = 16 :=
    uniform.card_sends_eq 0 (by decide) fun _ => ⟨0, by decide⟩
  have ones : Nat.card {table // (fresh table).Sends 0 [0]}
      = Nat.card {table // (fresh table).Sends 3 [1]} :=
    uniform.card_sends 0 (by decide) 3 (by decide) (fun _ => ⟨0, by decide⟩)
      fun _ => ⟨1, by decide⟩
  exact ⟨misses, by omega, by omega⟩

end Client

end PrivateRetrieval
