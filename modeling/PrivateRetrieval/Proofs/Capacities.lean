/-
Capacities that follow from a size fit into words.

The number of backup hints is a product of two numbers that come from the number of
words, and one of them is a rounded logarithm; the budget is a product of such a logarithm and
a rounded root.  How they are rounded does not matter here, only that rounding at most doubles
a number and that a series of decreasing terms is at most as many times its first one:

* **`Rounded.nearest_le`**, **`Rounded.oddSeries_le`**, **`Rounded.log_le`** — bounds from
  above, all of them rough;
* **`Rounded.ceilLog_lt`**, **`Rounded.ceilRootLog_lt`** — the logarithm of a word, rounded up,
  has fewer than 16 bits, and its product with the root has no more than 60;
* **`Params.backupCount_lt_of_ofSize`** — so the backup hints of a database whose words can be
  counted in a word can be counted in one as well.
-/
import Mathlib.Algebra.Group.Nat.Defs
import PrivateRetrieval.Proofs.Chunking

namespace PrivateRetrieval

namespace Rounded

/-- Rounding at most doubles. -/
theorem nearest_le (m : Nat) : nearest m ≤ 2 * m := by
  rcases Nat.eq_zero_or_pos m with rfl | pos
  · decide
  have unit_le : 1 <<< (m.log2 + 1 - precision) ≤ m := by
    rw [Nat.one_shiftLeft]
    refine Nat.le_trans (Nat.pow_le_pow_right (by decide) ?_)
      (Nat.log2_self_le (Nat.ne_of_gt pos))
    rw [precision]
    omega
  have kept := Nat.div_mul_le_self m (1 <<< (m.log2 + 1 - precision))
  rw [nearest]
  split
  · rw [Nat.succ_mul]
    omega
  · omega

/-- The first term bounds those that follow, as long as the square is at most one. -/
theorem oddSeries_le {square : Nat} (small : square ≤ 1 <<< sumPlaces) (terms power d : Nat) :
    oddSeries square terms power d ≤ terms * power := by
  induction terms generalizing power d with
  | zero => exact Nat.zero_le _
  | succ terms ih =>
    have later : (power * square) >>> sumPlaces ≤ power := by
      rw [Nat.shiftRight_eq_div_pow]
      refine Nat.div_le_of_le_mul ?_
      rw [Nat.one_shiftLeft] at small
      rw [Nat.mul_comm]
      exact Nat.mul_le_mul_right _ small
    have rest := Nat.le_trans (ih ((power * square) >>> sumPlaces) (d + 2))
      (Nat.mul_le_mul_left _ later)
    have first := Nat.div_le_self power d
    rw [oddSeries, Nat.succ_mul]
    omega

theorem artanh_le {num den : Nat} (le : num ≤ den) : artanh num den ≤ 64 * 1 <<< sumPlaces := by
  have z_le : (num <<< sumPlaces) / den ≤ 1 <<< sumPlaces := by
    rw [Nat.shiftLeft_eq, Nat.one_shiftLeft]
    exact Nat.div_le_of_le_mul (Nat.mul_le_mul_right _ le)
  have square_le : ((num <<< sumPlaces) / den * ((num <<< sumPlaces) / den)) >>> sumPlaces
      ≤ 1 <<< sumPlaces := by
    rw [Nat.shiftRight_eq_div_pow]
    refine Nat.div_le_of_le_mul ?_
    rw [← Nat.one_shiftLeft]
    exact Nat.mul_le_mul z_le z_le
  exact Nat.le_trans (oddSeries_le square_le 64 _ 1) (Nat.mul_le_mul_left _ z_le)

/-- The logarithm in terms of the number of bits. -/
theorem log_le (x : Nat) : log x ≤ 2 * (256 * (x.log2 + 1) * 1 <<< sumPlaces + 1) := by
  rw [log]
  split
  · exact Nat.zero_le _
  · refine Nat.le_trans (nearest_le _) (Nat.mul_le_mul_left 2 (Nat.succ_le_succ ?_))
    have whole : x.log2 * artanh 1 3 ≤ x.log2 * (64 * 1 <<< sumPlaces) :=
      Nat.mul_le_mul_left _ (artanh_le (by decide))
    have part : artanh (x - 1 <<< x.log2) (x + 1 <<< x.log2) ≤ 64 * 1 <<< sumPlaces :=
      artanh_le (Nat.le_trans (Nat.sub_le _ _) (Nat.le_add_right _ _))
    calc 2 * (2 * (x.log2 * artanh 1 3 + artanh (x - 1 <<< x.log2) (x + 1 <<< x.log2)))
        ≤ 2 * (2 * (x.log2 * (64 * 1 <<< sumPlaces) + 64 * 1 <<< sumPlaces)) := by omega
      _ = 256 * (x.log2 + 1) * 1 <<< sumPlaces := by
        rw [← Nat.succ_mul, ← Nat.mul_assoc, ← Nat.mul_assoc, ← Nat.mul_assoc,
          Nat.mul_right_comm _ _ 64]

/-- Rounding can add a bit to those of a word. -/
theorem nearest_lt {n : Nat} (fits : n < UInt64.size) : nearest n < 2 ^ 65 := by
  have rounded := nearest_le n
  simp only [UInt64.size] at fits
  omega

/-- The logarithm of a number that fits into a word, in units of its last place. -/
theorem log_nearest_le {n : Nat} (fits : n < UInt64.size) :
    log (nearest n) ≤ 2 * (256 * 65 * 1 <<< sumPlaces + 1) := by
  have short : (nearest n).log2 < 65 := by
    rcases Nat.eq_zero_or_pos (nearest n) with zero | pos
    · rw [zero]
      decide
    · exact (Nat.log2_lt (Nat.ne_of_gt pos)).mpr (nearest_lt fits)
  have bits : 256 * ((nearest n).log2 + 1) * 1 <<< sumPlaces ≤ 256 * 65 * 1 <<< sumPlaces :=
    Nat.mul_le_mul_right _ (Nat.mul_le_mul_left _ short)
  exact Nat.le_trans (log_le (nearest n)) (Nat.mul_le_mul_left _ (Nat.succ_le_succ bits))

/-- The logarithm of a number that fits into a word, rounded up. -/
theorem ceilLog_lt {n : Nat} (fits : n < UInt64.size) : ceilLog n < UInt16.size := by
  have value := log_nearest_le fits
  have unit : 1 <<< logPlaces = 2 * 1 <<< sumPlaces := by decide
  have pos : 0 < 1 <<< sumPlaces := by decide
  rw [ceilLog, ceilShift, unit, Nat.div_lt_iff_lt_mul (by omega), UInt16.size]
  omega

/-- The root of a number with so many pairs of bits, in units of its last place. -/
theorem root_lt {x pairs : Nat} (short : x < 2 ^ (2 * pairs)) :
    root x < 4 * 2 ^ (pairs + floorPlaces) := by
  have floor_lt : sqrtFloor (x <<< (2 * floorPlaces)) < 2 ^ (pairs + floorPlaces) := by
    have below := sqrtFloor_sq_le (x <<< (2 * floorPlaces))
    have scaled : x <<< (2 * floorPlaces)
        < 2 ^ (pairs + floorPlaces) * 2 ^ (pairs + floorPlaces) := by
      rw [Nat.shiftLeft_eq, ← Nat.pow_add, ← Nat.two_mul, Nat.mul_add, Nat.pow_add]
      exact Nat.mul_lt_mul_of_pos_right short (Nat.two_pow_pos _)
    exact Nat.mul_self_lt_mul_self_iff.mp (Nat.lt_of_le_of_lt below scaled)
  have rounded (bit : Nat) := nearest_le (2 * sqrtFloor (x <<< (2 * floorPlaces)) + bit)
  rw [root]
  split
  · have above := rounded 0
    omega
  · have above := rounded 1
    omega

/-- The rounded product of root and logarithm, for a number that fits into a word. -/
theorem ceilRootLog_lt {n : Nat} (fits : n < UInt64.size) : ceilRootLog n < 2 ^ 60 := by
  have first : root (nearest n) < 4 * 2 ^ (33 + floorPlaces) :=
    root_lt (Nat.lt_trans (nearest_lt fits) (by decide))
  have second := log_nearest_le fits
  have product := nearest_le (root (nearest n) * log (nearest n))
  have unit : 0 < 1 <<< (rootPlaces + logPlaces) := by decide
  have most : root (nearest n) * log (nearest n)
      ≤ 4 * 2 ^ (33 + floorPlaces) * (2 * (256 * 65 * 1 <<< sumPlaces + 1)) :=
    Nat.mul_le_mul (Nat.le_of_lt first) second
  have room : 2 * (4 * 2 ^ (33 + floorPlaces) * (2 * (256 * 65 * 1 <<< sumPlaces + 1)))
      + 1 <<< (rootPlaces + logPlaces) ≤ 2 ^ 60 * 1 <<< (rootPlaces + logPlaces) := by decide
  rw [ceilRootLog, ceilShift]
  rw [Nat.div_lt_iff_lt_mul unit]
  omega

end Rounded

theorem Params.backupsPerChunk_of_ofSize {size : Nat} {p : Params} (own : ofSize size = .ok p) :
    p.backupsPerChunk = oversampling * max 1 (Rounded.ceilLog size) := by
  obtain ⟨-, -, -, same⟩ := withCapacities_of_ok own
  rw [same]

/-- The capacities that follow from a size have no more backup hints than a word can count. -/
theorem Params.backupCount_lt_of_ofSize {size : Nat} {p : Params} (own : ofSize size = .ok p)
    (small : size < UInt64.size) : p.backupCount < UInt64.size := by
  have derived : p.Derived size := .inl own
  have counted := derived.valid.chunkCount_lt (derived.dbSize_eq ▸ small)
  have logarithm := Rounded.ceilLog_lt small
  have few : p.backupsPerChunk ≤ 4 * UInt16.size := by
    rw [backupsPerChunk_of_ofSize own, oversampling]
    omega
  refine Nat.lt_of_le_of_lt (Nat.mul_le_mul few (Nat.le_of_lt counted)) ?_
  decide

end PrivateRetrieval
