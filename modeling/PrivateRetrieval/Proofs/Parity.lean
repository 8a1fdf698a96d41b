/-
Exclusive ors over chunks.

Every parity of the protocol is the exclusive or of one word from each chunk, or
from each chunk but one.  This file gives the two sums a name:

* **`xorBelow`** — over the chunks below a count;
* **`xorExcept`** — the same with one chunk left out
  (`xorBelow_eq_xorExcept`, `xorExcept_xor_xorExcept`).
-/

namespace PrivateRetrieval

/-- The exclusive or of `f c` over all `c < count`. -/
def xorBelow (f : Nat → UInt64) : (count : Nat) → UInt64
  | 0 => 0
  | count + 1 => xorBelow f count ^^^ f count

/-- The exclusive or of `f c` over all `c < count` other than `skipped`. -/
def xorExcept (f : Nat → UInt64) (count skipped : Nat) : UInt64 :=
  xorBelow (fun c => if c = skipped then 0 else f c) count

variable {f g : Nat → UInt64} {count skipped : Nat}

theorem xor_xor_cancel_right (a b : UInt64) : a ^^^ b ^^^ b = a := by
  rw [UInt64.xor_assoc, UInt64.xor_self, UInt64.xor_zero]

theorem xorBelow_congr (same : ∀ c < count, f c = g c) : xorBelow f count = xorBelow g count := by
  induction count with
  | zero => rfl
  | succ count ih =>
    rw [xorBelow, xorBelow, same count (Nat.lt_succ_self count)]
    rw [ih fun c below => same c (Nat.lt_succ_of_lt below)]

theorem xorExcept_congr (same : ∀ c < count, c ≠ skipped → f c = g c) :
    xorExcept f count skipped = xorExcept g count skipped := by
  refine xorBelow_congr fun c below => ?_
  by_cases left : c = skipped
  · rw [if_pos left, if_pos left]
  · rw [if_neg left, if_neg left, same c below left]

theorem xorExcept_of_le (past : count ≤ skipped) :
    xorExcept f count skipped = xorBelow f count :=
  xorBelow_congr fun c below => if_neg (by omega)

theorem xorExcept_succ : xorExcept f (count + 1) skipped
    = xorExcept f count skipped ^^^ if count = skipped then 0 else f count := rfl

/-- The term that was left out makes the sum whole again. -/
theorem xorBelow_eq_xorExcept (within : skipped < count) :
    xorBelow f count = xorExcept f count skipped ^^^ f skipped := by
  induction count with
  | zero => omega
  | succ count ih =>
    rw [xorExcept_succ, xorBelow]
    by_cases last : count = skipped
    · -- The sum so far has no place to leave out.
      subst last
      rw [if_pos rfl, xorExcept_of_le (Nat.le_refl count), UInt64.xor_zero]
    · rw [if_neg last, ih (by omega)]
      ac_rfl

theorem xorExcept_eq_xorBelow (within : skipped < count) :
    xorExcept f count skipped = xorBelow f count ^^^ f skipped := by
  rw [xorBelow_eq_xorExcept within, xor_xor_cancel_right]

/-- Two sums that leave out a chunk each differ by the words of these chunks. -/
theorem xorExcept_xor_xorExcept {other : Nat} (within : skipped < count) (within' : other < count) :
    xorExcept f count skipped ^^^ xorExcept f count other = f skipped ^^^ f other := by
  rw [xorExcept_eq_xorBelow within, xorExcept_eq_xorBelow within']
  calc xorBelow f count ^^^ f skipped ^^^ (xorBelow f count ^^^ f other)
      = f skipped ^^^ f other ^^^ (xorBelow f count ^^^ xorBelow f count) := by ac_rfl
    _ = f skipped ^^^ f other := by rw [UInt64.xor_self, UInt64.xor_zero]

end PrivateRetrieval
