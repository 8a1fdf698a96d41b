/-
Chunk and offset for every index, in 64 bits.

Padding rounds the number of words up to whole chunks, and could so leave the range of a
word.  It does not: a database with chunks of `c` words has at most `(c + 1) ^ 2 - 1`, which is
`c * (c + 2)`, and so at most `c + 2` chunks.  For the largest number of words that a word can
count this only just fits:

* **`Params.Exact`** — the chunks are as long as the root, as many as are needed, and all of
  their indices are words (`Params.Valid.exact`);
* **`Params.place`**, **`Params.indexAt`** — from an index to its chunk and offset, and back,
  one for one (`Params.Valid.bijOn_place`);
* **`Params.Addressed`** — what the functions of the program compute of addresses fits into
  words, step by step;
* **`Params.exact_chunking`** — all of this for every number of words that a word can count.
-/
import Mathlib.Algebra.Group.Nat.Defs
import Mathlib.Data.Set.Function
import Mathlib.Order.Interval.Set.Defs
import PrivateRetrieval.Proofs.CheckedClient

namespace PrivateRetrieval.Params

/-- The chunk of an index, and its offset there. -/
def place (p : Params) (index : Nat) : Nat × Nat := (p.chunkOf index, p.offsetInChunk index)

/-- The index at an offset of a chunk. -/
def indexAt (p : Params) (place : Nat × Nat) : Nat := place.1 * p.chunkSize + place.2

/-- Chunks of `⌊√N⌋` words, no more of them than cover `N` words. -/
structure Exact (p : Params) : Prop where
  chunkSize_pos : 1 ≤ p.chunkSize
  sq_le : p.chunkSize ^ 2 ≤ p.dbSize
  lt_succ_sq : p.dbSize < (p.chunkSize + 1) ^ 2
  last_needed : p.chunkSize * (p.chunkCount - 1) < p.dbSize
  covered : p.dbSize ≤ p.chunkSize * p.chunkCount
  padded_le : p.chunkSize * p.chunkCount ≤ 2 ^ 64 - 1
  chunkCount_mem : p.chunkCount ∈ [p.chunkSize, p.chunkSize + 1, p.chunkSize + 2]

/-- Indices and places stand for each other, and what is computed with them fits into words. -/
structure Addressed (p : Params) : Prop where
  padded : Checked.product p.chunkSize p.chunkCount = .ok p.paddedSize
  punctured : Checked.difference p.chunkCount 1 = .ok p.puncturedLength
  /-- The first index of a chunk, and the one after its last. -/
  bounds : ∀ chunk < p.chunkCount,
    Checked.product chunk p.chunkSize = .ok (chunk * p.chunkSize)
      ∧ Checked.sum (chunk * p.chunkSize) p.chunkSize = .ok (chunk * p.chunkSize + p.chunkSize)
      ∧ chunk * p.chunkSize + p.chunkSize ≤ p.paddedSize
  address : ∀ chunk < p.chunkCount, ∀ offset < p.chunkSize,
    Checked.sum (chunk * p.chunkSize) offset = .ok (p.indexAt (chunk, offset))
      ∧ p.indexAt (chunk, offset) < p.paddedSize
  element : ∀ {K : Type} [Prf K] (hint : Hint K), ∀ chunk < p.chunkCount,
    Checked.elementAt hint chunk p.chunkSize = .ok (hint.elementAt chunk p.chunkSize)
  /-- A server of as many words finds all of them where it looks. -/
  served : ∀ s : Server, s.words.size = p.dbSize →
    (∀ chunk < p.chunkCount, Checked.paddedChunk s chunk = .ok (s.paddedChunk chunk))
      ∧ ∀ {σ : Type} (offsets : List Nat) (state : σ),
        Checked.process s offsets state = (s.process offsets).toAction state
  places : Set.BijOn p.place (Set.Iio p.paddedSize) (Set.Iio p.chunkCount ×ˢ Set.Iio p.chunkSize)
  inverse : Set.InvOn p.indexAt p.place (Set.Iio p.paddedSize)
    (Set.Iio p.chunkCount ×ˢ Set.Iio p.chunkSize)
  inDatabase : ∀ index < p.dbSize, index < p.paddedSize ∧ p.chunkOf index < p.chunkCount

variable {p : Params}

namespace Valid

/-- Without the last chunk the others would not reach the end. -/
theorem last_needed (valid : p.Valid) : p.chunkSize * (p.chunkCount - 1) < p.dbSize := by
  have pos := valid.chunkSize_pos
  have nonempty := valid.dbSize_pos
  have whole := Nat.div_mul_le_self (p.dbSize + (p.chunkSize - 1)) p.chunkSize
  rw [← valid.chunkCount_eq, Nat.mul_comm] at whole
  rw [Nat.mul_sub, Nat.mul_one]
  omega

theorem exact (valid : p.Valid) (small : p.dbSize < UInt64.size) : p.Exact where
  chunkSize_pos := valid.chunkSize_pos
  sq_le := by
    rw [Nat.pow_two]
    exact valid.chunkSize_sq_le
  lt_succ_sq := by
    rw [Nat.pow_two]
    exact valid.dbSize_lt
  last_needed := valid.last_needed
  covered := valid.dbSize_le
  padded_le := Nat.le_sub_one_of_lt (valid.paddedSize_lt small)
  chunkCount_mem := by
    have least := valid.chunkSize_le_chunkCount
    have most := valid.chunkCount_le
    simp only [List.mem_cons, List.not_mem_nil, or_false]
    omega

end Valid

/-! ### Places -/

theorem chunk_end_le {chunk : Nat} (within : chunk < p.chunkCount) :
    chunk * p.chunkSize + p.chunkSize ≤ p.paddedSize := by
  rw [← Nat.succ_mul, paddedSize, Nat.mul_comm p.chunkSize]
  exact Nat.mul_le_mul_right _ within

theorem indexAt_lt {chunk offset : Nat} (within : chunk < p.chunkCount)
    (below : offset < p.chunkSize) : p.indexAt (chunk, offset) < p.paddedSize :=
  Nat.lt_of_lt_of_le (Nat.add_lt_add_left below _) (chunk_end_le within)

namespace Valid

theorem place_mem (valid : p.Valid) {index : Nat} (within : index < p.paddedSize) :
    p.place index ∈ Set.Iio p.chunkCount ×ˢ Set.Iio p.chunkSize := by
  have pos := valid.chunkSize_pos
  refine ⟨?_, Nat.mod_lt index pos⟩
  rw [paddedSize, Nat.mul_comm] at within
  exact (Nat.div_lt_iff_lt_mul pos).mpr within

theorem invOn_place (valid : p.Valid) : Set.InvOn p.indexAt p.place (Set.Iio p.paddedSize)
    (Set.Iio p.chunkCount ×ˢ Set.Iio p.chunkSize) := by
  constructor
  · intro index _
    exact Nat.div_add_mod' index p.chunkSize
  · rintro ⟨chunk, offset⟩ ⟨-, below⟩
    have below : offset < p.chunkSize := below
    refine Prod.ext ?_ ?_
    · show (chunk * p.chunkSize + offset) / p.chunkSize = chunk
      rw [Nat.mul_comm, Nat.mul_add_div valid.chunkSize_pos, Nat.div_eq_of_lt below, Nat.add_zero]
    · show (chunk * p.chunkSize + offset) % p.chunkSize = offset
      rw [Nat.mul_comm, Nat.mul_add_mod, Nat.mod_eq_of_lt below]

theorem bijOn_place (valid : p.Valid) :
    Set.BijOn p.place (Set.Iio p.paddedSize) (Set.Iio p.chunkCount ×ˢ Set.Iio p.chunkSize) :=
  valid.invOn_place.bijOn (fun _ within => valid.place_mem within)
    fun _ both => indexAt_lt both.1 both.2

/-! ### Addresses -/

theorem addressed (valid : p.Valid) (small : p.dbSize < UInt64.size) : p.Addressed where
  padded := Checked.product_of_lt (valid.paddedSize_lt small)
  punctured := Checked.difference_of_le valid.chunkCount_pos
  bounds chunk within := by
    have fits := valid.chunk_end_lt small within
    exact ⟨Checked.product_of_lt (by omega), Checked.sum_of_lt fits, chunk_end_le within⟩
  address chunk within offset below := by
    have fits := valid.chunk_end_lt small within
    exact ⟨Checked.sum_of_lt (by omega), indexAt_lt within below⟩
  element hint chunk within := by
    have fits := valid.chunk_end_lt small within
    have below := hint.offsetAt_lt valid.chunkSize_pos chunk
    exact Checked.elementAt_eq hint valid.chunkSize_pos (by omega)
  served s length := by
    have same : s.params.dbSize = p.dbSize := s.dbSize_eq.trans length
    have count := s.valid.chunkCount_eq_of valid same
    rw [← same] at small
    exact ⟨fun chunk within => Checked.paddedChunk_eq small (count ▸ within),
      Checked.process_eq small⟩
  places := valid.bijOn_place
  inverse := valid.invOn_place
  inDatabase index within :=
    ⟨Nat.lt_of_lt_of_le within valid.dbSize_le, valid.chunkOf_lt within⟩

end Valid

/-- **Chunking is exact in 64 bits.**  Any number of words from one to the last that a word can
count is cut into chunks, with any capacities but none, and no address leaves the range of a
word. -/
theorem exact_chunking {size budget primary backups : Nat} (nonempty : 1 ≤ size)
    (small : size ≤ 2 ^ 64 - 1) (some_primary : primary ≠ 0) (some_backups : backups ≠ 0) :
    ∃ p, withCapacities size budget primary backups = .ok p ∧ p.dbSize = size
      ∧ p.Exact ∧ p.Addressed := by
  have derived : withCapacities size budget primary backups = .ok ⟨size, sqrtFloor size,
      (size + (sqrtFloor size - 1)) / sqrtFloor size, budget, primary, backups⟩ := by
    rw [withCapacities, if_neg (by omega), if_neg (not_or.mpr ⟨some_primary, some_backups⟩)]
  obtain ⟨valid, size_eq⟩ := withCapacities_valid derived
  have fits : size < UInt64.size := Nat.lt_of_le_sub_one (by decide) small
  exact ⟨_, derived, size_eq, valid.exact fits, valid.addressed fits⟩

/-- The largest database of all: its chunks fill the range of a word to the last number. -/
theorem exact_chunking_of_largest :
    ∃ p, withCapacities (2 ^ 64 - 1) 1 1 1 = .ok p
      ∧ Checked.product p.chunkSize p.chunkCount = .ok (2 ^ 64 - 1)
      ∧ p.chunkOf (2 ^ 64 - 2) < p.chunkCount := by
  obtain ⟨p, derived, size, exact, addressed⟩ := @exact_chunking (2 ^ 64 - 1) 1 1 1
    (by decide) (by decide) Nat.one_ne_zero Nat.one_ne_zero
  have full : p.paddedSize = 2 ^ 64 - 1 := Nat.le_antisymm exact.padded_le (size ▸ exact.covered)
  refine ⟨p, derived, full ▸ addressed.padded, ?_⟩
  exact (addressed.inDatabase _ (size.symm ▸ by decide)).2

end PrivateRetrieval.Params
