/-
Sources of random words, and numbers drawn from them.

A source is any state from which 64-bit words are drawn one after another.  A
number below `n` is the high half of `word * n`; the low half decides whether a
second word is drawn to settle the carry:

* **`drawBelow`** — a number below `n`, for `0 < n` (`drawBelow_lt`);
* **`drawWords`** — that many words, in order.
-/

namespace PrivateRetrieval

/-- A state from which words are drawn. -/
class RandomSource (σ : Type) where
  nextWord : σ → UInt64 × σ

export RandomSource (nextWord)

variable {σ : Type} [RandomSource σ]

/-- Number of values of a word. -/
def wordRange : Nat := UInt64.size

/-- A number below `n`. The second word is drawn only where it could still carry
into the high half of the first product. -/
def drawBelow (n : Nat) (source : σ) : Nat × σ :=
  let first := nextWord source
  let product := first.1.toNat * n
  let high := product / wordRange
  let low := product % wordRange
  if wordRange - n < low then
    let second := nextWord first.2
    (high + (low + second.1.toNat * n / wordRange) / wordRange, second.2)
  else (high, first.2)

private theorem high_lt {x n : Nat} (pos : 0 < n) (bound : x < wordRange) :
    x * n / wordRange < n := by
  rw [Nat.div_lt_iff_lt_mul (by decide), Nat.mul_comm n]
  exact Nat.mul_lt_mul_of_pos_right bound pos

theorem drawBelow_lt {n : Nat} (pos : 0 < n) (source : σ) : (drawBelow n source).1 < n := by
  simp only [drawBelow]
  split
  · have first := (nextWord source).1.toNat_lt
    have second := high_lt pos (nextWord (nextWord source).2).1.toNat_lt
    generalize (nextWord source).1.toNat = x at *
    generalize (nextWord (nextWord source).2).1.toNat * n / wordRange = carried at *
    have parts := Nat.div_add_mod (x * n) wordRange
    have most : x * n ≤ (wordRange - 1) * n :=
      Nat.mul_le_mul_right n (by simp only [wordRange, UInt64.size]; omega)
    rw [Nat.sub_mul, Nat.one_mul] at most
    have room : n ≤ wordRange * n := Nat.le_mul_of_pos_left n (by decide)
    rw [← Nat.mul_add_div (by decide), ← Nat.add_assoc, parts,
      Nat.div_lt_iff_lt_mul (by decide), Nat.mul_comm n]
    omega
  · exact high_lt pos (nextWord source).1.toNat_lt

/-- Draws `count` more words behind those already in `drawn`. -/
def drawWordsOnto : (count : Nat) → σ → Array UInt64 → Array UInt64 × σ
  | 0, source, drawn => (drawn, source)
  | count + 1, source, drawn =>
    drawWordsOnto count (nextWord source).2 (drawn.push (nextWord source).1)

/-- The next `count` words, in order. -/
def drawWords (count : Nat) (source : σ) : Array UInt64 × σ :=
  drawWordsOnto count source #[]

end PrivateRetrieval
