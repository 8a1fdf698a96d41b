/-
Counting tables of traces.

A table holds a trace for every primary hint, and a query takes the first of them
that passes through its index.  What it shows of the trace is a vector: the offsets
in all other chunks.

* **`puncture`** — a trace is its offset in a chunk together with such a vector,
  whichever the chunk;
* **`exchange`** — traces permuted so that one chunk, offset and vector go over into
  others;
* **`TraceTable.leaves`** — the vector that a table shows, if any;
* **`TraceTable.leaves_exchangeAll`** — it is permuted along with the traces, so that
  every vector is left by equally many tables (`TraceTable.card_leaves_eq`);
* **`TraceTable.card_leaves_none`**, **`TraceTable.card_leaves`** — how many these are.
-/
import Mathlib.Data.Fin.Tuple.Basic
import Mathlib.Data.List.OfFn
import Mathlib.Logic.Equiv.Prod
import Mathlib.SetTheory.Cardinal.Finite

namespace PrivateRetrieval

variable {rows count size : Nat}

/-! ### Traces -/

/-- A trace taken apart at a chunk: its offset there, and the offsets in all other chunks. -/
def puncture : {count : Nat} → (chunk : Fin count) →
    (Fin count → Fin size) ≃ Fin size × (Fin (count - 1) → Fin size)
  | _ + 1, chunk => (Fin.insertNthEquiv (fun _ => Fin size) chunk).symm

theorem puncture_fst (chunk : Fin count) (trace : Fin count → Fin size) :
    (puncture chunk trace).1 = trace chunk := by
  cases count with
  | zero => exact chunk.elim0
  | succ count => rfl

/-- What is left of a trace is the list of its offsets without the one of the chunk. -/
theorem ofFn_puncture_snd (chunk : Fin count) (trace : Fin count → Fin size) :
    List.ofFn (puncture chunk trace).2 = (List.ofFn trace).eraseIdx chunk := by
  cases count with
  | zero => exact chunk.elim0
  | succ count =>
    refine List.ext_getElem ?_ fun place within within' => ?_
    · rw [List.length_eraseIdx, List.length_ofFn, List.length_ofFn, if_pos chunk.isLt]
    rw [List.length_ofFn] at within
    rw [List.getElem_ofFn, List.getElem_eraseIdx]
    show trace (chunk.succAbove ⟨place, within⟩) = _
    by_cases before : place < chunk
    · rw [dif_pos before, List.getElem_ofFn, Fin.succAbove_of_castSucc_lt _ _ before]
      rfl
    · have behind : chunk ≤ Fin.castSucc ⟨place, within⟩ := Nat.le_of_not_lt before
      rw [dif_neg before, List.getElem_ofFn, Fin.succAbove_of_le_castSucc _ _ behind]
      rfl

/-- Traces permuted: `offset` and `offset'` change places, and so do `vector` and
`vector'`, while what was at `chunk` goes to `chunk'`. -/
def exchange (chunk chunk' : Fin count) (offset offset' : Fin size)
    (vector vector' : Fin (count - 1) → Fin size) :
    (Fin count → Fin size) ≃ (Fin count → Fin size) :=
  (puncture chunk).trans
    ((Equiv.prodCongr (Equiv.swap offset offset') (Equiv.swap vector vector')).trans
      (puncture chunk').symm)

section Exchange

variable (chunk chunk' : Fin count) (offset offset' : Fin size)
  (vector vector' : Fin (count - 1) → Fin size) (trace : Fin count → Fin size)

theorem puncture_exchange :
    puncture chunk' (exchange chunk chunk' offset offset' vector vector' trace)
      = (Equiv.swap offset offset' (trace chunk),
        Equiv.swap vector vector' (puncture chunk trace).2) := by
  rw [exchange, Equiv.trans_apply, Equiv.trans_apply, Equiv.apply_symm_apply,
    Equiv.prodCongr_apply, Prod.map_apply', puncture_fst]

theorem exchange_apply :
    exchange chunk chunk' offset offset' vector vector' trace chunk'
      = Equiv.swap offset offset' (trace chunk) :=
  (puncture_fst chunk' _).symm.trans
    (congrArg Prod.fst (puncture_exchange chunk chunk' offset offset' vector vector' trace))

end Exchange

/-! ### Tables -/

/-- A trace for every primary hint. -/
abbrev TraceTable (rows count size : Nat) : Type := Fin rows → Fin count → Fin size

namespace TraceTable

/-- The first trace with an offset in a chunk. -/
def first (table : TraceTable rows count size) (chunk : Fin count) (offset : Fin size) :
    Option (Fin rows) :=
  Fin.find? fun row => decide (table row chunk = offset)

/-- What the first trace through an offset leaves if the offset is taken out. -/
def leaves (table : TraceTable rows count size) (chunk : Fin count) (offset : Fin size) :
    Option (Fin (count - 1) → Fin size) :=
  (table.first chunk offset).map fun row => (puncture chunk (table row)).2

theorem first_eq_some_iff {table : TraceTable rows count size} {chunk : Fin count}
    {offset : Fin size} {row : Fin rows} : table.first chunk offset = some row
      ↔ table row chunk = offset ∧ ∀ earlier < row, table earlier chunk ≠ offset := by
  simp only [first, Fin.find?_eq_some_iff, decide_eq_true_eq, decide_eq_false_iff_not, ne_eq]

theorem first_eq_none_iff {table : TraceTable rows count size} {chunk : Fin count}
    {offset : Fin size} :
    table.first chunk offset = none ↔ ∀ row, table row chunk ≠ offset := by
  simp only [first, Fin.find?_eq_none_iff, decide_eq_false_iff_not, ne_eq]

theorem leaves_eq_none_iff {table : TraceTable rows count size} {chunk : Fin count}
    {offset : Fin size} :
    table.leaves chunk offset = none ↔ ∀ row, table row chunk ≠ offset := by
  rw [leaves, Option.map_eq_none_iff, first_eq_none_iff]

section Exchange

variable (chunk chunk' : Fin count) (offset offset' : Fin size)
  (vector vector' : Fin (count - 1) → Fin size)

/-- Every trace of a table permuted in the same way. -/
def exchangeAll : TraceTable rows count size ≃ TraceTable rows count size :=
  Equiv.piCongrRight fun _ => exchange chunk chunk' offset offset' vector vector'

/-- The same traces pass through the offset that comes in place of another. -/
theorem first_exchangeAll (table : TraceTable rows count size) :
    (exchangeAll chunk chunk' offset offset' vector vector' table).first chunk' offset'
      = table.first chunk offset := by
  refine congrArg Fin.find? (funext fun row => decide_eq_decide.mpr ?_)
  show exchange chunk chunk' offset offset' vector vector' (table row) chunk' = offset' ↔ _
  rw [exchange_apply, Equiv.swap_apply_eq_iff, Equiv.swap_apply_right]

theorem leaves_exchangeAll (table : TraceTable rows count size) :
    (exchangeAll chunk chunk' offset offset' vector vector' table).leaves chunk' offset'
      = (table.leaves chunk offset).map (Equiv.swap vector vector') := by
  rw [leaves, leaves, first_exchangeAll, Option.map_map]
  refine congrArg (Option.map · _) (funext fun row => ?_)
  exact congrArg Prod.snd
    (puncture_exchange chunk chunk' offset offset' vector vector' (table row))

/-- Every vector is left by equally many tables, whichever offset is taken out of
whichever chunk. -/
theorem card_leaves_eq :
    Nat.card {table : TraceTable rows count size // table.leaves chunk offset = some vector}
      = Nat.card {table : TraceTable rows count size //
          table.leaves chunk' offset' = some vector'} := by
  refine Nat.card_congr
    ((exchangeAll chunk chunk' offset offset' vector vector').subtypeEquiv fun table => ?_)
  rw [leaves_exchangeAll, Option.map_eq_some_iff]
  constructor
  · intro left
    exact ⟨vector, left, Equiv.swap_apply_left vector vector'⟩
  · rintro ⟨found, left, goes⟩
    rw [Equiv.swap_apply_eq_iff, Equiv.swap_apply_right] at goes
    rw [left, goes]

end Exchange

section Count

variable (chunk : Fin count) (offset : Fin size)

/-- Traces that have another offset in a chunk. -/
theorem card_avoiding : Nat.card {trace : Fin count → Fin size // trace chunk ≠ offset}
    = (size - 1) * size ^ (count - 1) := by
  have taken : {trace : Fin count → Fin size // trace chunk ≠ offset}
      ≃ {other : Fin size // other ≠ offset} × (Fin (count - 1) → Fin size) :=
    ((puncture chunk).subtypeEquiv fun trace => by rw [puncture_fst]).trans
      Equiv.prodSubtypeFstEquivSubtypeProd
  rw [Nat.card_congr taken, Nat.card_prod, Nat.card_fun, Nat.card_fin, Nat.card_fin]
  congr 1
  simp [Nat.card_eq_fintype_card, Fintype.card_subtype_compl]

/-- Tables without a trace through an offset. -/
theorem card_leaves_none :
    Nat.card {table : TraceTable rows count size // table.leaves chunk offset = none}
      = ((size - 1) * size ^ (count - 1)) ^ rows := by
  have each : {table : TraceTable rows count size // table.leaves chunk offset = none}
      ≃ (Fin rows → {trace : Fin count → Fin size // trace chunk ≠ offset}) :=
    (Equiv.subtypeEquivRight fun _ => leaves_eq_none_iff).trans
      (@Equiv.subtypePiEquivPi (Fin rows) (fun _ => Fin count → Fin size)
        fun _ trace => trace chunk ≠ offset)
  rw [Nat.card_congr each, Nat.card_fun, card_avoiding, Nat.card_fin]

/-- Every table leaves one vector or none. -/
theorem card_leaves (vector : Fin (count - 1) → Fin size) :
    Nat.card {table : TraceTable rows count size // table.leaves chunk offset = none}
      + size ^ (count - 1)
        * Nat.card {table : TraceTable rows count size // table.leaves chunk offset = some vector}
      = (size ^ count) ^ rows := by
  have fibres := Nat.card_congr
    (Equiv.sigmaFiberEquiv fun table : TraceTable rows count size => table.leaves chunk offset)
  have alike (other : Fin (count - 1) → Fin size) :
      Nat.card {table : TraceTable rows count size // table.leaves chunk offset = some other}
        = Nat.card {table : TraceTable rows count size //
            table.leaves chunk offset = some vector} :=
    card_leaves_eq chunk chunk offset offset other vector
  rw [Nat.card_sigma, Fintype.sum_option, Finset.sum_congr rfl fun other _ => alike other,
    Finset.sum_const, Finset.card_univ, ← Nat.card_eq_fintype_card] at fibres
  simpa [Nat.card_fun] using fibres

end Count

end TraceTable

end PrivateRetrieval
