/-
Keys that spell out their words.

A `LiteralKey` lists the words of its chunks and is zero past their end.  With
such keys a trace can be chosen freely, which is how a table of hints is pinned
down in an example or counted over all tables.  They are not drawn at random
but taken off a script.
-/
import PrivateRetrieval.Prf.Basic
import PrivateRetrieval.Random.Source

namespace PrivateRetrieval

/-- The words of the chunks, in order. -/
structure LiteralKey where
  words : List UInt64
deriving DecidableEq

/-- The word of a chunk is read off the key. -/
instance : Prf LiteralKey where
  eval key chunk := key.words.getD chunk 0

/-- A source of words with a script of keys beside it. -/
structure Scripted (σ : Type) where
  source : σ
  /-- The keys that are still to come. -/
  script : List LiteralKey

/-- Words are drawn from the source, and the script stays as it is. -/
instance {σ : Type} [RandomSource σ] : RandomSource (Scripted σ) where
  nextWord s :=
    let drawn := nextWord s.source
    (drawn.1, { s with source := drawn.2 })

/-- The next key of the script, which takes no word from the source; the empty
key once the script has come to its end. -/
instance {σ : Type} : KeySource (Scripted σ) LiteralKey where
  drawKey s := (s.script.headD ⟨[]⟩, { s with script := s.script.tail })

end PrivateRetrieval
