/-
Pseudorandom functions and where their keys come from.

A key stands for one word in every chunk.  Hints use nothing else of it, so all
of the protocol is stated for any `Prf`, and for any way of drawing its keys.
-/

namespace PrivateRetrieval

/-- A function from chunks to words for every key in `K`. -/
class Prf (K : Type) where
  eval : K → Nat → UInt64

/-- A state from which keys are drawn. -/
class KeySource (σ K : Type) where
  /-- A fresh key, and the state after it. -/
  drawKey : σ → K × σ

end PrivateRetrieval
