/-
Traces: one word position in every chunk.

What a hint picks depends on its key and its point and never on its parity, and
programming moves the trace in one chunk only:

* **`Hint.offsetAt_lt`**, **`Hint.elementAt_eq`** — the element of a chunk lies
  inside the chunk (`Hint.elementAt_div`), at the offset of the trace;
* **`Hint.offsetAt_program`** — a programmed hint passes through its point and
  follows its key everywhere else;
* **`Hint.bare`** — a hint without its parity, all that selection depends on.
-/
import PrivateRetrieval.Hint

namespace PrivateRetrieval

variable {K : Type}

namespace Hint

/-- A hint without its parity: its key, and the point to which it is pinned. -/
def bare (hint : Hint K) : Hint K := { hint with parity := 0 }

variable [Prf K]

@[simp] theorem offsetAt_xorParity (hint : Hint K) (word : UInt64) (chunk chunkSize : Nat) :
    (hint.xorParity word).offsetAt chunk chunkSize = hint.offsetAt chunk chunkSize := rfl

@[simp] theorem trace?_bare (hint : Hint K) (chunkCount chunkSize : Nat) :
    hint.bare.trace? chunkCount chunkSize = hint.trace? chunkCount chunkSize := rfl

theorem offsetAt_of_unprogrammed {hint : Hint K} (free : hint.point = none)
    (chunk chunkSize : Nat) :
    hint.offsetAt chunk chunkSize = keyOffset hint.key chunk chunkSize := by
  rw [offsetAt, free]

theorem offsetAt_program (hint : Hint K) (index chunk chunkSize : Nat) :
    (hint.program index).offsetAt chunk chunkSize
      = if index / chunkSize = chunk then index % chunkSize
        else keyOffset hint.key chunk chunkSize := rfl

theorem offsetAt_lt (hint : Hint K) {chunkSize : Nat} (pos : 0 < chunkSize) (chunk : Nat) :
    hint.offsetAt chunk chunkSize < chunkSize := by
  have keyed : keyOffset hint.key chunk chunkSize < chunkSize := Nat.mod_lt _ pos
  unfold offsetAt
  cases hint.point with
  | none => exact keyed
  | some point =>
    dsimp only
    split
    · exact Nat.mod_lt _ pos
    · exact keyed

theorem elementAt_eq (hint : Hint K) (chunk chunkSize : Nat) :
    hint.elementAt chunk chunkSize = chunk * chunkSize + hint.offsetAt chunk chunkSize := by
  unfold elementAt offsetAt
  cases hint.point with
  | none => exact Nat.add_comm _ _
  | some point =>
    dsimp only
    split
    · rename_i inside
      rw [← inside, Nat.mul_comm, Nat.div_add_mod]
    · exact Nat.add_comm _ _

theorem elementAt_div (hint : Hint K) {chunkSize : Nat} (pos : 0 < chunkSize) (chunk : Nat) :
    hint.elementAt chunk chunkSize / chunkSize = chunk := by
  rw [elementAt_eq, Nat.mul_comm, Nat.mul_add_div pos,
    Nat.div_eq_of_lt (hint.offsetAt_lt pos chunk), Nat.add_zero]

/-- The trace passes through `index` in a chunk: it has the offset of `index` there. -/
theorem offsetAt_of_elementAt {hint : Hint K} {chunk chunkSize index : Nat}
    (through : hint.elementAt chunk chunkSize = index) (pos : 0 < chunkSize) :
    hint.offsetAt chunk chunkSize = index % chunkSize := by
  rw [← through, elementAt_eq, Nat.mul_comm, Nat.mul_add_mod,
    Nat.mod_eq_of_lt (hint.offsetAt_lt pos chunk)]

/-- In the chunk of an index, to pass through the index is to have its offset. -/
theorem elementAt_eq_iff (hint : Hint K) {chunkSize : Nat} (pos : 0 < chunkSize) (index : Nat) :
    hint.elementAt (index / chunkSize) chunkSize = index
      ↔ hint.offsetAt (index / chunkSize) chunkSize = index % chunkSize := by
  refine ⟨fun through => offsetAt_of_elementAt through pos, fun same => ?_⟩
  rw [elementAt_eq, same, Nat.mul_comm, Nat.div_add_mod]

theorem length_trace (hint : Hint K) (chunkCount chunkSize : Nat) :
    (hint.trace chunkCount chunkSize).length = chunkCount := by
  rw [trace, List.length_map, List.length_range]

/-- A trace without the entry of one chunk has an offset for every other, each within its chunk. -/
theorem puncture_fits (hint : Hint K) {chunk chunkCount chunkSize : Nat} (pos : 0 < chunkSize)
    (within : chunk < chunkCount) :
    ((hint.trace chunkCount chunkSize).eraseIdx chunk).length = chunkCount - 1
      ∧ ∀ offset ∈ (hint.trace chunkCount chunkSize).eraseIdx chunk, offset < chunkSize := by
  refine ⟨?_, fun offset member => ?_⟩
  · rw [List.length_eraseIdx, length_trace, if_pos within]
  · obtain ⟨other, -, rfl⟩ := List.mem_map.mp (List.mem_of_mem_eraseIdx member)
    exact hint.offsetAt_lt pos other

theorem trace?_eq_some (hint : Hint K) (chunkCount : Nat) {chunkSize : Nat}
    (pos : 0 < chunkSize) :
    hint.trace? chunkCount chunkSize = some (hint.trace chunkCount chunkSize) :=
  if_neg (by omega)

end Hint

end PrivateRetrieval
