/-
The server's answer, computed plainly.

The window derives every candidate from the one before it, and reads past the end
of the database without asking.  What comes out is what one would compute for each
candidate alone, from a database that is filled up with zeros:

* **`Server.padded`** — that database;
* **`Server.Picks`** — the words that the offsets pick in it when a chunk is left
  out, all of which are there;
* **`Server.Processed`** — what an answer has to be, for offsets of any kind;
* **`Server.sliding_window`** — the answers of every server are that.
-/
import PrivateRetrieval.Proofs.Window

namespace PrivateRetrieval

/-- Only an empty database has no parameters. -/
theorem Params.ofSize_ok {size : Nat} (pos : 0 < size) : ∃ p, ofSize size = .ok p := by
  rw [ofSize, withCapacities, if_neg (by omega), if_neg (by simp only [oversampling]; omega)]
  exact ⟨_, rfl⟩

namespace Server

theorem ofWords_ok {words : Array UInt64} (nonempty : 0 < words.size) :
    ∃ s, ofWords words = .ok s ∧ s.words = words := by
  obtain ⟨p, derived⟩ := Params.ofSize_ok nonempty
  refine ⟨⟨words, p, derived⟩, ?_, rfl⟩
  rw [ofWords]
  split
  · rename_i p' derived'
    cases derived.symm.trans derived'
    rfl
  · rename_i cause failed
    exact absurd (derived.symm.trans failed) (by simp)

/-- A server is known by its words. -/
theorem eq_of_words {s s' : Server} (same : s.words = s'.words) : s = s' := by
  obtain ⟨words, p, derived⟩ := s
  obtain ⟨words', p', derived'⟩ := s'
  obtain rfl : words = words' := same
  obtain rfl : p = p' := Except.ok.inj (derived.symm.trans derived')
  rfl

variable (s : Server)

/-! ### The padded database -/

/-- The database, filled up with zeros to the end of its last chunk. -/
def padded : List UInt64 :=
  s.words.toList ++ List.replicate (s.params.paddedSize - s.words.size) 0

theorem length_padded : s.padded.length = s.params.paddedSize := by
  have covered := s.valid.dbSize_le
  rw [s.dbSize_eq] at covered
  rw [padded, List.length_append, List.length_replicate, Array.length_toList, Params.paddedSize]
  omega

/-- Every place of every chunk is a place of the padded database. -/
theorem lt_length_padded {chunk offset : Nat} (within : chunk < s.params.chunkCount)
    (below : offset < s.params.chunkSize) :
    chunk * s.params.chunkSize + offset < s.padded.length := by
  rw [length_padded, Params.paddedSize]
  calc chunk * s.params.chunkSize + offset
      < (chunk + 1) * s.params.chunkSize := by rw [Nat.succ_mul]; omega
    _ ≤ s.params.chunkCount * s.params.chunkSize := Nat.mul_le_mul_right _ within
    _ = s.params.chunkSize * s.params.chunkCount := Nat.mul_comm _ _

theorem padded_getElem?_of_lt {index : Nat} (there : index < s.padded.length) :
    s.padded[index]? = some (s.wordAt index) := by
  rw [wordAt, Array.getD_eq_getD_getElem?, padded]
  by_cases real : index < s.words.size
  · rw [List.getElem?_append_left (by simpa using real)]
    simp [real]
  · rw [padded, List.length_append, Array.length_toList, List.length_replicate] at there
    rw [List.getElem?_append_right (by simpa using real), List.getElem?_replicate,
      if_pos (by rw [Array.length_toList]; omega), Array.getElem?_eq_none (by omega),
      Option.getD_none]

theorem padded_getElem? {chunk offset : Nat} (within : chunk < s.params.chunkCount)
    (below : offset < s.params.chunkSize) :
    s.padded[chunk * s.params.chunkSize + offset]? = some (s.word chunk offset) :=
  s.padded_getElem?_of_lt (s.lt_length_padded within below)

/-! ### What an answer has to be -/

/-- The word that the offsets pick in every chunk other than `left`. -/
def Picks (offsets : List Nat) (left : Nat) (picked : Nat → UInt64) : Prop :=
  ∀ chunk < s.params.chunkCount, chunk ≠ left →
    s.padded[chunk * s.params.chunkSize + appliedOffset offsets left chunk]? = some (picked chunk)

/-- One offset for every chunk but one, each within its chunk. -/
structure Fits (offsets : List Nat) : Prop where
  length : offsets.length = s.params.chunkCount - 1
  below : ∀ offset ∈ offsets, offset < s.params.chunkSize

/-- The first position whose offset lies past the end of a chunk, and that offset. -/
structure FirstPast (offsets : List Nat) (position offset : Nat) : Prop where
  here : offsets[position]? = some offset
  past : s.params.chunkSize ≤ offset
  before : ∀ earlier < position, ∀ {other}, offsets[earlier]? = some other →
    other < s.params.chunkSize

/-- The plain answer to a list of offsets, whatever it is. -/
structure Processed (offsets : List Nat) (result : Except Error (List UInt64)) : Prop where
  ok_iff : (∃ parities, result = .ok parities) ↔ s.Fits offsets
  /-- One parity for every chunk, over the words that are picked if it is left out. -/
  parities : ∀ {parities}, result = .ok parities → parities.length = s.params.chunkCount
    ∧ ∀ left < s.params.chunkCount, ∃ picked, s.Picks offsets left picked
      ∧ parities[left]? = some (xorExcept picked s.params.chunkCount left)
  /-- A wrong number of offsets is told before anything else. -/
  miscounted : offsets.length ≠ s.params.chunkCount - 1 →
    result = .error (.offsetCount (s.params.chunkCount - 1) offsets.length)
  outOfRange : offsets.length = s.params.chunkCount - 1 → ¬ s.Fits offsets →
    ∃ position offset, s.FirstPast offsets position offset
      ∧ result = .error (.offsetOutOfRange position offset s.params.chunkSize)

variable {s}

theorem appliedOffset_lt {offsets : List Nat} (fits : s.Fits offsets) {left chunk : Nat}
    (inside : left < s.params.chunkCount) (within : chunk < s.params.chunkCount)
    (other : chunk ≠ left) : appliedOffset offsets left chunk < s.params.chunkSize := by
  have member {place : Nat} (there : place < offsets.length) :
      offsets.getD place 0 < s.params.chunkSize := by
    rw [List.getD_eq_getElem?_getD, List.getElem?_eq_getElem there, Option.getD_some]
    exact fits.below _ (List.getElem_mem there)
  have length := fits.length
  rw [appliedOffset]
  split
  · exact member (by omega)
  · exact member (by omega)

/-- Offsets that fit get the parities of the words that they pick. -/
theorem process_of_fits {offsets : List Nat} (fits : s.Fits offsets) :
    ∃ parities, (s.process offsets).result = .ok parities
      ∧ parities.length = s.params.chunkCount
      ∧ ∀ left < s.params.chunkCount, ∃ picked, s.Picks offsets left picked
        ∧ parities[left]? = some (xorExcept picked s.params.chunkCount left) := by
  have some_chunk := s.valid.chunkCount_pos
  have count : offsets.length + 1 = s.params.chunkCount := by
    rw [fits.length]
    omega
  refine ⟨_, s.process_of_valid fits.length fits.below, ?_, fun left inside => ?_⟩
  · rw [length_slide, count]
  · refine ⟨fun chunk => s.word chunk (appliedOffset offsets left chunk), ?_, ?_⟩
    · intro chunk within other
      exact s.padded_getElem? within (appliedOffset_lt fits inside within other)
    · rw [slide_eq_xorExcept s (by omega), count]

/-- Offsets that are as many as they should be and do not fit are refused at the first
one that is too large. -/
theorem process_of_past {offsets : List Nat} (length : offsets.length = s.params.chunkCount - 1)
    (unfit : ¬ s.Fits offsets) :
    ∃ position offset, s.FirstPast offsets position offset ∧ (s.process offsets).result
      = .error (.offsetOutOfRange position offset s.params.chunkSize) := by
  cases found : offsets.findIdx? (fun offset => decide (s.params.chunkSize ≤ offset)) with
  | none =>
    rw [List.findIdx?_eq_none_iff] at found
    refine absurd ⟨length, fun offset member => ?_⟩ unfit
    simpa using found offset member
  | some position =>
    have eq : (s.process offsets).result = .error
        (.offsetOutOfRange position (offsets.getD position 0) s.params.chunkSize) := by
      rw [process, if_neg (fun differs => differs length), found]
      rfl
    rw [List.findIdx?_eq_some_iff_getElem] at found
    obtain ⟨within, past, before⟩ := found
    have here := List.getElem?_eq_getElem within
    rw [List.getD_eq_getElem?_getD, here, Option.getD_some] at eq
    refine ⟨position, offsets[position], ⟨here, by simpa using past, ?_⟩, eq⟩
    intro earlier lt other at_earlier
    obtain ⟨_, rfl⟩ := List.getElem?_eq_some_iff.mp at_earlier
    simpa using before earlier lt

theorem process_of_miscount {offsets : List Nat}
    (differs : offsets.length ≠ s.params.chunkCount - 1) : (s.process offsets).result
      = .error (.offsetCount (s.params.chunkCount - 1) offsets.length) := by
  have differs : offsets.length ≠ s.params.puncturedLength := differs
  rw [process, if_pos differs]
  rfl

/-- What does not fit is refused in one of two ways. -/
theorem fits_of_process_ok {offsets : List Nat} {parities : List UInt64}
    (told : (s.process offsets).result = .ok parities) : s.Fits offsets := by
  by_cases fits : s.Fits offsets
  · exact fits
  by_cases length : offsets.length = s.params.chunkCount - 1
  · obtain ⟨position, offset, -, refused⟩ := process_of_past length fits
    exact absurd (told.symm.trans refused) (by simp)
  · exact absurd (told.symm.trans (process_of_miscount length)) (by simp)

/-- **The sliding window.**  Every nonempty database has a server, and what it answers to
a list of offsets of any kind is what is computed plainly from the padded database. -/
theorem sliding_window {words : Array UInt64} (nonempty : 0 < words.size) :
    ∃ s, ofWords words = .ok s ∧ s.words = words
      ∧ ∀ offsets, s.Processed offsets (s.process offsets).result := by
  obtain ⟨s, made, same⟩ := ofWords_ok nonempty
  refine ⟨s, made, same, fun offsets => ⟨⟨?_, ?_⟩, ?_, process_of_miscount, process_of_past⟩⟩
  · rintro ⟨parities, told⟩
    exact fits_of_process_ok told
  · intro fits
    obtain ⟨parities, told, -⟩ := process_of_fits fits
    exact ⟨parities, told⟩
  · intro parities told
    obtain ⟨parities', told', plain⟩ := process_of_fits (fits_of_process_ok told)
    cases told.symm.trans told'
    exact plain

/-- Three chunks of two words, the last of them padded: the offsets read past the end of
the database when the first or the second chunk is left out. -/
theorem sliding_window_of_five_words :
    ∃ s, ofWords #[1, 2, 3, 4, 5] = .ok s ∧ (s.process [1, 1]).result = .ok [4, 2, 6]
      ∧ (s.process [1]).result = .error (.offsetCount 2 1)
      ∧ (s.process [1, 2]).result = .error (.offsetOutOfRange 1 2 2) := by
  have nonempty : 0 < (#[1, 2, 3, 4, 5] : Array UInt64).size := by decide
  obtain ⟨s, made, same, plain⟩ := sliding_window nonempty
  have derived : s.params.Derived s.words.size := .inl s.derived
  have dbSize : s.params.dbSize = 5 := by
    rw [derived.dbSize_eq, same]
    rfl
  have size : s.params.chunkSize = 2 := by
    rw [derived.valid.chunkSize_eq, dbSize]
    decide
  have count : s.params.chunkCount = 3 := by rw [derived.valid.chunkCount_eq, dbSize, size]
  have padded : s.padded = [1, 2, 3, 4, 5, 0] := by
    rw [Server.padded, Params.paddedSize, size, count, same]
    rfl
  refine ⟨s, made, ?_, ?_, ?_⟩
  · obtain ⟨parities, told⟩ := (plain [1, 1]).ok_iff.mpr
      ⟨by rw [count]; rfl, by rw [size]; decide⟩
    obtain ⟨length, candidates⟩ := (plain [1, 1]).parities told
    rw [count] at length candidates
    have candidate {left : Nat} (inside : left < 3) : parities[left]? = some (xorExcept
        (fun chunk => [1, 2, 3, 4, 5, 0].getD (chunk * 2 + appliedOffset [1, 1] left chunk) 0)
          3 left) := by
      obtain ⟨picked, picks, here⟩ := candidates left inside
      rw [Picks, count, size, padded] at picks
      rw [here]
      refine congrArg some (xorExcept_congr fun chunk within other => ?_)
      rw [List.getD_eq_getElem?_getD, picks chunk within other, Option.getD_some]
    rw [told]
    refine congrArg Except.ok (List.ext_getElem? fun left => ?_)
    match left with
    | 0 => exact candidate (by decide)
    | 1 => exact candidate (by decide)
    | 2 => exact candidate (by decide)
    | left + 3 => rw [List.getElem?_eq_none (by omega), List.getElem?_eq_none (by simp)]
  · have refused := (plain [1]).miscounted (by rw [count]; decide)
    rwa [count] at refused
  · obtain ⟨position, offset, first, refused⟩ := (plain [1, 2]).outOfRange (by rw [count]; rfl)
      fun fits => absurd (fits.below 2 (by decide)) (by rw [size]; decide)
    obtain ⟨here, past, -⟩ := first
    rw [size] at past refused
    match position with
    | 0 =>
      cases here
      omega
    | 1 =>
      cases here
      exact refused
    | position + 2 => exact absurd here (by simp)

end Server

end PrivateRetrieval
