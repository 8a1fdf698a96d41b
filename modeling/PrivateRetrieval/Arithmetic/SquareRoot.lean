/-
Integer square roots.

`sqrtFloor n` is the largest `r` with `r * r ≤ n`, found two bits of `n` at a
time, so that it evaluates on numerals of any size:

* **`sqrtFloor_sq_le`** — the root's square does not exceed `n`;
* **`lt_sqrtFloor_succ_sq`** — the next square does.
-/

namespace PrivateRetrieval

/-- The root of `n`, provided `n` has no more than `pairs` pairs of bits: the root
of `n / 4` doubled, plus one if the square still fits. -/
def sqrtPairs : (pairs n : Nat) → Nat
  | 0, _ => 0
  | pairs + 1, n =>
    let r := 2 * sqrtPairs pairs (n / 4)
    if (r + 1) * (r + 1) ≤ n then r + 1 else r

/-- The largest natural number whose square is at most `n`. -/
def sqrtFloor (n : Nat) : Nat :=
  sqrtPairs (n.log2 / 2 + 1) n

private theorem double_sq (r : Nat) : (2 * r) * (2 * r) = 4 * (r * r) := by
  rw [Nat.mul_mul_mul_comm]

private theorem succ_sq (r : Nat) : (r + 1) * (r + 1) = r * r + 2 * r + 1 := by
  rw [Nat.add_mul, Nat.mul_add]
  omega

theorem sqrtPairs_sq_le (pairs n : Nat) : sqrtPairs pairs n * sqrtPairs pairs n ≤ n := by
  induction pairs generalizing n with
  | zero => exact Nat.zero_le n
  | succ pairs ih =>
    simp only [sqrtPairs]
    split
    · assumption
    · have below := ih (n / 4)
      rw [double_sq]
      omega

theorem lt_sqrtPairs_succ_sq (pairs n : Nat) (short : n >>> (2 * pairs) = 0) :
    n < (sqrtPairs pairs n + 1) * (sqrtPairs pairs n + 1) := by
  induction pairs generalizing n with
  | zero =>
    have zero : n = 0 := short
    simp [sqrtPairs, zero]
  | succ pairs ih =>
    have above := ih (n / 4) (by
      rw [Nat.mul_succ, Nat.add_comm, Nat.shiftRight_add, Nat.shiftRight_eq_div_pow n 2] at short
      exact short)
    rw [succ_sq] at above
    simp only [sqrtPairs]
    split
    · rw [succ_sq, succ_sq, double_sq]
      omega
    · omega

/-- A number has no bits past its highest one. -/
private theorem shiftRight_pairs (n : Nat) : n >>> (2 * (n.log2 / 2 + 1)) = 0 := by
  rw [Nat.shiftRight_eq_div_pow]
  refine Nat.div_eq_of_lt (Nat.lt_of_lt_of_le Nat.lt_log2_self ?_)
  exact Nat.pow_le_pow_right (by decide) (by omega)

theorem sqrtFloor_sq_le (n : Nat) : sqrtFloor n * sqrtFloor n ≤ n :=
  sqrtPairs_sq_le _ n

theorem lt_sqrtFloor_succ_sq (n : Nat) : n < (sqrtFloor n + 1) * (sqrtFloor n + 1) :=
  lt_sqrtPairs_succ_sq _ n (shiftRight_pairs n)

theorem sqrtFloor_pos {n : Nat} (pos : 0 < n) : 0 < sqrtFloor n := by
  have above := lt_sqrtFloor_succ_sq n
  rcases Nat.eq_zero_or_pos (sqrtFloor n) with zero | root
  · rw [zero] at above
    omega
  · exact root

end PrivateRetrieval
