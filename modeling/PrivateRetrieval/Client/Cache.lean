/-
The words that a client has retrieved.

* **`Cache.get?_insert`** — an insertion shows at its index and nowhere else;
* **`Cache.size_insert`** — a fresh index makes the cache larger by one.
-/

namespace PrivateRetrieval

/-- Retrieved words by index, the latest first; no index occurs twice. -/
structure Cache where
  entries : List (Nat × UInt64) := []
deriving DecidableEq

namespace Cache

/-- The word of an index, if it has been retrieved. -/
def get? (cache : Cache) (index : Nat) : Option UInt64 :=
  cache.entries.lookup index

/-- Whether the word of an index has been retrieved. -/
def contains (cache : Cache) (index : Nat) : Bool :=
  (cache.get? index).isSome

/-- Number of indices whose words have been retrieved. -/
def size (cache : Cache) : Nat := cache.entries.length

/-- Makes `word` the word of an index. -/
def insert (cache : Cache) (index : Nat) (word : UInt64) : Cache :=
  ⟨(index, word) :: cache.entries.filter (·.1 != index)⟩

private theorem lookup_filter_ne {entries : List (Nat × UInt64)} {index other : Nat}
    (ne : other ≠ index) :
    (entries.filter (·.1 != index)).lookup other = entries.lookup other := by
  induction entries with
  | nil => rfl
  | cons entry rest ih =>
    obtain ⟨i, word⟩ := entry
    by_cases same : i = index
    · subst same
      simp [List.lookup_cons, ih, beq_false_of_ne ne]
    · by_cases hit : other = i
      · subst hit
        simp [same]
      · simp [List.lookup_cons, same, ih, beq_false_of_ne hit]

theorem get?_insert (cache : Cache) (index other : Nat) (word : UInt64) :
    (cache.insert index word).get? other
      = if other = index then some word else cache.get? other := by
  by_cases same : other = index
  · subst same
    simp [insert, get?]
  · simp [insert, get?, List.lookup_cons, beq_false_of_ne same, lookup_filter_ne same, same]

private theorem filter_of_lookup_none {entries : List (Nat × UInt64)} {index : Nat}
    (fresh : entries.lookup index = none) : entries.filter (·.1 != index) = entries := by
  induction entries with
  | nil => rfl
  | cons entry rest ih =>
    obtain ⟨i, word⟩ := entry
    by_cases same : index = i
    · subst same
      simp at fresh
    · rw [List.lookup_cons, beq_false_of_ne same] at fresh
      simp [Ne.symm same, ih fresh]

theorem size_insert {cache : Cache} {index : Nat} {word : UInt64}
    (fresh : cache.get? index = none) : (cache.insert index word).size = cache.size + 1 := by
  simp only [insert, size, List.length_cons, filter_of_lookup_none fresh]

end Cache

end PrivateRetrieval
