/-
Square roots, logarithms and products rounded to 53 significant bits.

The hint budget is a rounded expression in the size of the database, and two
parties agree on it only if they round alike.  Every value here is a natural
number that counts units of some binary place, so rounding is exact integer
arithmetic:

* **`nearest`** — the closest number with 53 significant bits, a half going to
  the even neighbour;
* **`root`**, **`log`** — the rounded square root and natural logarithm;
* **`ceilRootLog`**, **`ceilLog`** — the least integers not below the rounded
  product of the two, and not below the logarithm.

The logarithm comes from `ln (2 ^ k * y) = k * ln 2 + 2 * artanh ((y - 1) / (y + 1))`
with `1 ≤ y < 2`, summed to 192 binary places.  That leaves more than a hundred
places beyond the rounded ones, and one odd bit stands for all that follow.
-/
import PrivateRetrieval.Arithmetic.SquareRoot

namespace PrivateRetrieval.Rounded

/-- Significant bits of a rounded value. -/
def precision : Nat := 53

/-- The number with `precision` significant bits closest to `m`, and of two the
one whose last kept bit is zero. -/
def nearest (m : Nat) : Nat :=
  let unit := 1 <<< (m.log2 + 1 - precision)
  let kept := m / unit
  let rest := m % unit
  if unit < 2 * rest ∨ (2 * rest = unit ∧ kept % 2 = 1) then (kept + 1) * unit else kept * unit

/-- Binary places of the floor from which `root` is rounded. -/
def floorPlaces : Nat := 64

/-- Binary places of `root`: one more, for the bit that stands for all that
follow the floor. -/
def rootPlaces : Nat := floorPlaces + 1

/-- The rounded square root, in units of `rootPlaces` binary places. -/
def root (x : Nat) : Nat :=
  let scaled := x <<< (2 * floorPlaces)
  let floor := sqrtFloor scaled
  nearest (2 * floor + if floor * floor = scaled then 0 else 1)

/-- Binary places to which the logarithm is summed. -/
def sumPlaces : Nat := 192

/-- The next `terms` terms `power / d + power * square / (d + 2) + …` of an odd
power series. -/
def oddSeries (square : Nat) : (terms power d : Nat) → Nat
  | 0, _, _ => 0
  | terms + 1, power, d =>
    power / d + oddSeries square terms ((power * square) >>> sumPlaces) (d + 2)

/-- `artanh (num / den)` for `3 * num ≤ den`; each term is at most a ninth of
the one before, so 64 of them reach every place. -/
def artanh (num den : Nat) : Nat :=
  let z := (num <<< sumPlaces) / den
  oddSeries ((z * z) >>> sumPlaces) 64 z 1

/-- Binary places of `log`: one more than are summed, for the odd bit behind them. -/
def logPlaces : Nat := sumPlaces + 1

/-- The rounded natural logarithm, in units of `logPlaces` binary places. -/
def log (x : Nat) : Nat :=
  if x ≤ 1 then 0
  else
    let k := x.log2
    let high := 1 <<< k
    nearest (2 * (2 * (k * artanh 1 3 + artanh (x - high) (x + high))) + 1)

/-- The least integer not below `m`, of which `places` binary places are
fractional. -/
def ceilShift (m places : Nat) : Nat :=
  let unit := 1 <<< places
  (m + (unit - 1)) / unit

/-- The rounded product of square root and logarithm of `n`, rounded up. -/
def ceilRootLog (n : Nat) : Nat :=
  let x := nearest n
  ceilShift (nearest (root x * log x)) (rootPlaces + logPlaces)

/-- The rounded logarithm of `n`, rounded up. -/
def ceilLog (n : Nat) : Nat :=
  ceilShift (log (nearest n)) logPlaces

end PrivateRetrieval.Rounded
