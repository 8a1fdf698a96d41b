/-
Chunks cover the database.

Parameters come from a number of words alone or with a budget of hints
(`Params.Derived`).  Either way the chunking is that of the number of words, and
what the protocol needs of it is collected in one structure:

* **`Params.Valid`** — chunks of `⌊√N⌋` words, as many as cover `N`, and a budget
  that is not empty (`Params.Derived.valid`);
* **`Params.Valid.chunkOf_lt`** — every index lies in one of the chunks;
* **`Params.Valid.chunkSize_eq_of`**, **`Params.Valid.chunkCount_eq_of`** — two
  parties that share `N` share the chunks.
-/
import PrivateRetrieval.Params

namespace PrivateRetrieval.Params

/-- Parameters of `size` words, with the budget that follows from the size or
with any other. -/
def Derived (size : Nat) (p : Params) : Prop :=
  ofSize size = .ok p ∨ ∃ budget primary backups,
    withCapacities size budget primary backups = .ok p

/-- What every derivation of parameters establishes. -/
structure Valid (p : Params) : Prop where
  dbSize_pos : 0 < p.dbSize
  chunkSize_eq : p.chunkSize = sqrtFloor p.dbSize
  chunkCount_eq : p.chunkCount = (p.dbSize + (p.chunkSize - 1)) / p.chunkSize
  primaryCount_pos : 0 < p.primaryCount
  backupsPerChunk_pos : 0 < p.backupsPerChunk

variable {p p' : Params} {size : Nat}

/-- What a derivation comes to. -/
theorem withCapacities_of_ok {budget primary backups : Nat}
    (h : withCapacities size budget primary backups = .ok p) :
    size ≠ 0 ∧ primary ≠ 0 ∧ backups ≠ 0
      ∧ p = ⟨size, sqrtFloor size, (size + (sqrtFloor size - 1)) / sqrtFloor size, budget, primary,
        backups⟩ := by
  unfold withCapacities at h
  by_cases empty : size = 0
  · rw [if_pos empty] at h
    exact absurd h (by simp)
  rw [if_neg empty] at h
  by_cases hintless : primary = 0 ∨ backups = 0
  · rw [if_pos hintless] at h
    exact absurd h (by simp)
  rw [if_neg hintless, Except.ok.injEq] at h
  rw [not_or] at hintless
  exact ⟨empty, hintless.1, hintless.2, h.symm⟩

theorem withCapacities_valid {budget primary backups : Nat}
    (h : withCapacities size budget primary backups = .ok p) : p.Valid ∧ p.dbSize = size := by
  obtain ⟨nonempty, primary_ne, backups_ne, rfl⟩ := withCapacities_of_ok h
  exact ⟨⟨Nat.pos_of_ne_zero nonempty, rfl, rfl, Nat.pos_of_ne_zero primary_ne,
    Nat.pos_of_ne_zero backups_ne⟩, rfl⟩

namespace Derived

theorem withCapacities (derived : p.Derived size) :
    ∃ budget primary backups, Params.withCapacities size budget primary backups = .ok p := by
  rcases derived with alone | given
  · exact ⟨_, _, _, alone⟩
  · exact given

theorem valid (derived : p.Derived size) : p.Valid := by
  obtain ⟨_, _, _, h⟩ := derived.withCapacities
  exact (withCapacities_valid h).1

theorem dbSize_eq (derived : p.Derived size) : p.dbSize = size := by
  obtain ⟨_, _, _, h⟩ := derived.withCapacities
  exact (withCapacities_valid h).2

end Derived

namespace Valid

theorem chunkSize_pos (valid : p.Valid) : 0 < p.chunkSize := by
  rw [valid.chunkSize_eq]
  exact sqrtFloor_pos valid.dbSize_pos

/-- The chunks are enough. -/
theorem dbSize_le (valid : p.Valid) : p.dbSize ≤ p.chunkSize * p.chunkCount := by
  have pos := valid.chunkSize_pos
  have parts := Nat.div_add_mod (p.dbSize + (p.chunkSize - 1)) p.chunkSize
  have rest := Nat.mod_lt (p.dbSize + (p.chunkSize - 1)) pos
  rw [← valid.chunkCount_eq] at parts
  omega

theorem chunkOf_lt (valid : p.Valid) {index : Nat} (within : index < p.dbSize) :
    p.chunkOf index < p.chunkCount := by
  rw [chunkOf, Nat.div_lt_iff_lt_mul valid.chunkSize_pos, Nat.mul_comm]
  exact Nat.lt_of_lt_of_le within valid.dbSize_le

theorem chunkCount_pos (valid : p.Valid) : 0 < p.chunkCount :=
  Nat.lt_of_le_of_lt (Nat.zero_le _) (valid.chunkOf_lt valid.dbSize_pos)

theorem chunkSize_sq_le (valid : p.Valid) : p.chunkSize * p.chunkSize ≤ p.dbSize := by
  rw [valid.chunkSize_eq]
  exact sqrtFloor_sq_le p.dbSize

theorem dbSize_lt (valid : p.Valid) : p.dbSize < (p.chunkSize + 1) * (p.chunkSize + 1) := by
  rw [valid.chunkSize_eq]
  exact lt_sqrtFloor_succ_sq p.dbSize

/-- Chunks are no longer than there are of them. -/
theorem chunkSize_le_chunkCount (valid : p.Valid) : p.chunkSize ≤ p.chunkCount :=
  Nat.le_of_mul_le_mul_left (Nat.le_trans valid.chunkSize_sq_le valid.dbSize_le)
    valid.chunkSize_pos

/-- There are at most two more chunks than each of them has words. -/
theorem chunkCount_le (valid : p.Valid) : p.chunkCount ≤ p.chunkSize + 2 := by
  have above := valid.dbSize_lt
  have pos := valid.chunkSize_pos
  refine Nat.le_of_lt_succ ?_
  rw [valid.chunkCount_eq, Nat.div_lt_iff_lt_mul pos]
  simp only [Nat.succ_eq_add_one, Nat.add_mul, Nat.mul_add] at above ⊢
  omega

theorem chunkSize_lt (valid : p.Valid) (small : p.dbSize < UInt64.size) :
    p.chunkSize < UInt32.size := by
  refine Nat.lt_of_not_le fun long => ?_
  have past : UInt32.size * UInt32.size ≤ p.dbSize :=
    Nat.le_trans (Nat.mul_le_mul long long) valid.chunkSize_sq_le
  exact Nat.not_lt_of_le past small

theorem chunkCount_lt (valid : p.Valid) (small : p.dbSize < UInt64.size) :
    p.chunkCount < UInt32.size + 2 :=
  Nat.lt_of_le_of_lt valid.chunkCount_le (Nat.add_lt_add_right (valid.chunkSize_lt small) 2)

/-- If the words of a database can be counted in a word, so can those of its padding. -/
theorem paddedSize_lt (valid : p.Valid) (small : p.dbSize < UInt64.size) :
    p.chunkSize * p.chunkCount < UInt64.size := by
  have short := valid.chunkSize_lt small
  calc p.chunkSize * p.chunkCount
      ≤ p.chunkSize * (p.chunkSize + 2) := Nat.mul_le_mul_left _ valid.chunkCount_le
    _ < (p.chunkSize + 1) * (p.chunkSize + 1) := by
      simp only [Nat.add_mul, Nat.mul_add]
      omega
    _ ≤ UInt32.size * UInt32.size := Nat.mul_le_mul short short

theorem chunk_end_lt (valid : p.Valid) (small : p.dbSize < UInt64.size) {chunk : Nat}
    (within : chunk < p.chunkCount) : chunk * p.chunkSize + p.chunkSize < UInt64.size := by
  refine Nat.lt_of_le_of_lt ?_ (valid.paddedSize_lt small)
  rw [← Nat.succ_mul, Nat.mul_comm p.chunkSize]
  exact Nat.mul_le_mul_right _ within

theorem chunk_lt (valid : p.Valid) (small : p.dbSize < UInt64.size) {chunk : Nat}
    (within : chunk < p.chunkCount) : chunk < UInt64.size := by
  have short := valid.chunkCount_lt small
  simp only [UInt32.size, UInt64.size] at short ⊢
  omega

theorem chunkSize_eq_of (valid : p.Valid) (valid' : p'.Valid) (same : p.dbSize = p'.dbSize) :
    p.chunkSize = p'.chunkSize := by
  rw [valid.chunkSize_eq, valid'.chunkSize_eq, same]

theorem chunkCount_eq_of (valid : p.Valid) (valid' : p'.Valid) (same : p.dbSize = p'.dbSize) :
    p.chunkCount = p'.chunkCount := by
  rw [valid.chunkCount_eq, valid'.chunkCount_eq, valid.chunkSize_eq_of valid' same, same]

end Valid

end PrivateRetrieval.Params
