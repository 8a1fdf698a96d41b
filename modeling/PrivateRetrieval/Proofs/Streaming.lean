/-
The chunks that a server streams.

A client builds its hints from streamed chunks, and a server answers from its database, where it
finds a word by its address and takes what is past the end for zero.  The two meet the same words:
put together again, the chunks are the database and nothing but the zeros that fill the last one:

* **`flatten_blocks`** — what is cut into blocks of one length is whole again when they are put
  together;
* **`Server.flatten_chunks`** — so the streamed chunks are the padded database;
* **`Server.chunks_getElem?`** — a chunk that is asked for is the one that is streamed;
* **`Server.process_of_streamed`** — an answer is made of words that were streamed;
* **`Server.Streams`**, **`Server.streaming`** — all of this for every database.
-/
import PrivateRetrieval.Proofs.Addresses
import PrivateRetrieval.Proofs.Candidates

namespace PrivateRetrieval

/-- Blocks of `size` entries each, put together again. -/
theorem flatten_blocks {α : Type} (entry : Nat → α) (count size : Nat) :
    ((List.range count).map fun block =>
        (List.range size).map fun place => entry (block * size + place)).flatten
      = (List.range (count * size)).map entry := by
  induction count with
  | zero => rw [Nat.zero_mul]; rfl
  | succ count ih =>
    rw [List.range_succ, List.map_append, List.flatten_append, ih, Nat.succ_mul, List.range_add,
      List.map_append, List.map_map]
    exact congrArg (_ ++ ·) (List.append_nil _)

/-- The padding is shorter than a chunk. -/
theorem Params.Valid.paddedSize_lt_add {p : Params} (valid : p.Valid) :
    p.paddedSize < p.dbSize + p.chunkSize := by
  have needed := valid.last_needed
  have some_chunk := valid.chunkCount_pos
  have last : p.paddedSize = p.chunkSize * (p.chunkCount - 1) + p.chunkSize := by
    rw [paddedSize, ← Nat.mul_succ, Nat.succ_eq_add_one, Nat.sub_add_cancel some_chunk]
  omega

namespace Server

variable (s : Server)

/-! ### Chunks -/

/-- Read address by address, the padded database is what `padded` says. -/
theorem map_wordAt_range : (List.range s.params.paddedSize).map s.wordAt = s.padded := by
  refine List.ext_getElem? fun index => ?_
  by_cases there : index < s.padded.length
  · rw [s.padded_getElem?_of_lt there, List.getElem?_map,
      List.getElem?_range (s.length_padded ▸ there)]
    rfl
  · rw [List.getElem?_eq_none (by rw [List.length_map, List.length_range, ← length_padded]; omega),
      List.getElem?_eq_none (by omega)]

theorem flatten_chunks : s.chunks.flatten = s.padded := by
  rw [← map_wordAt_range, Params.paddedSize, Nat.mul_comm]
  exact flatten_blocks s.wordAt s.params.chunkCount s.params.chunkSize

theorem chunks_getElem? (number : Nat) : s.chunks[number]? = (s.chunk number).toOption := by
  rw [chunks, chunk, List.getElem?_map]
  by_cases past : s.params.chunkCount ≤ number
  · rw [if_pos past, List.getElem?_eq_none (by rw [List.length_range]; exact past)]
    rfl
  · rw [if_neg past, List.getElem?_range (Nat.lt_of_not_le past)]
    rfl

theorem chunk_eq_ok_iff {number : Nat} {words : Chunk} :
    s.chunk number = .ok words ↔ s.chunks[number]? = some words := by
  rw [chunks_getElem?]
  cases s.chunk number with
  | ok given => exact ⟨fun same => congrArg some (Except.ok.inj same),
      fun same => congrArg Except.ok (Option.some.inj same)⟩
  | error cause => exact iff_of_false (by simp) (by simp [Except.toOption])

theorem chunk_ok_iff (number : Nat) :
    (∃ words, s.chunk number = .ok words) ↔ number < s.params.chunkCount := by
  rw [chunk]
  by_cases past : s.params.chunkCount ≤ number
  · rw [if_pos past]
    exact iff_of_false (by simp) (Nat.not_lt_of_le past)
  · rw [if_neg past]
    exact iff_of_true ⟨_, rfl⟩ (Nat.lt_of_not_le past)

/-! ### Words -/

theorem chunks_address {chunk offset : Nat} (within : chunk < s.params.chunkCount)
    (below : offset < s.params.chunkSize) :
    ∃ words, s.chunks[chunk]? = some words
      ∧ words[offset]? = some (s.wordAt (chunk * s.params.chunkSize + offset)) := by
  refine ⟨s.paddedChunk chunk, ?_, ?_⟩
  · rw [chunks, List.getElem?_map, List.getElem?_range within]
    rfl
  · rw [paddedChunk, List.getElem?_map, List.getElem?_range below]
    rfl

theorem wordAt_of_lt {index : Nat} (within : index < s.words.size) :
    s.wordAt index = s.words[index] := by
  rw [wordAt, Array.getD_eq_getD_getElem?, Array.getElem?_eq_getElem within, Option.getD_some]

theorem readDirect_of_lt {index : Nat} (within : index < s.words.size) :
    s.readDirect index = .ok s.words[index] := by
  rw [readDirect, if_neg (by rw [s.dbSize_eq]; omega), wordAt_of_lt s within]

theorem chunk_of_index {index : Nat} (within : index < s.words.size) :
    ∃ words, s.chunk (s.params.chunkOf index) = .ok words
      ∧ words[s.params.offsetInChunk index]? = some s.words[index] := by
  have inDb : index < s.params.dbSize := s.dbSize_eq.symm ▸ within
  obtain ⟨words, streamed, here⟩ := s.chunks_address (s.valid.chunkOf_lt inDb)
    (Nat.mod_lt index s.valid.chunkSize_pos)
  refine ⟨words, s.chunk_eq_ok_iff.mpr streamed, here.trans ?_⟩
  rw [Params.chunkOf, Nat.div_add_mod', wordAt_of_lt s within]

/-- An answer is computed from the streamed words alone. -/
theorem process_of_streamed {offsets : List Nat} (fits : s.Fits offsets) :
    ∃ parities, (s.process offsets).result = .ok parities
      ∧ parities.length = s.params.chunkCount
      ∧ ∀ left < s.params.chunkCount, parities[left]? = some (xorExcept
          (fun chunk => wordIn s.chunks chunk (appliedOffset offsets left chunk))
          s.params.chunkCount left) := by
  obtain ⟨parities, told, length, candidates⟩ := process_of_fits fits
  refine ⟨parities, told, length, fun left inside => ?_⟩
  obtain ⟨picked, picks, here⟩ := candidates left inside
  rw [here]
  refine congrArg some (xorExcept_congr fun chunk within other => ?_)
  have below := appliedOffset_lt fits inside within other
  rw [s.wordIn_chunks within below]
  exact Option.some.inj ((picks chunk within other).symm.trans (s.padded_getElem? within below))

/-! ### All together -/

/-- What a server gives away of its database, and what it answers from. -/
structure Streams (s : Server) : Prop where
  count : s.chunks.length = s.params.chunkCount
  lengths : ∀ words ∈ s.chunks, words.length = s.params.chunkSize
  flatten : s.chunks.flatten
    = s.words.toList ++ List.replicate (s.params.paddedSize - s.words.size) 0
  padding : s.words.size ≤ s.params.paddedSize
    ∧ s.params.paddedSize - s.words.size < s.params.chunkSize
  chunk_ok_iff : ∀ number, (∃ words, s.chunk number = .ok words) ↔ number < s.params.chunkCount
  chunk_streamed : ∀ {number words}, s.chunk number = .ok words ↔ s.chunks[number]? = some words
  bytes : ∀ {number words}, s.chunk number = .ok words →
    ∃ bytes, s.chunkBytes number = .ok bytes ∧ Words.decode bytes = .ok words
  read : ∀ {index} (within : index < s.words.size), s.readDirect index = .ok s.words[index]
    ∧ ∃ words, s.chunk (s.params.chunkOf index) = .ok words
      ∧ words[s.params.offsetInChunk index]? = some s.words[index]
  /-- The word at an address is the one that was streamed for it, past the end as well. -/
  address : ∀ chunk < s.params.chunkCount, ∀ offset < s.params.chunkSize,
    ∃ words, s.chunks[chunk]? = some words
      ∧ words[offset]? = some (s.wordAt (chunk * s.params.chunkSize + offset))
  processed : ∀ {offsets}, s.Fits offsets → ∃ parities,
    (s.process offsets).result = .ok parities ∧ parities.length = s.params.chunkCount
      ∧ ∀ left < s.params.chunkCount, parities[left]? = some (xorExcept
          (fun chunk => wordIn s.chunks chunk (appliedOffset offsets left chunk))
          s.params.chunkCount left)

theorem streams (small : s.params.dbSize < UInt64.size) : s.Streams where
  count := s.length_chunks
  lengths _ member := s.length_of_mem_chunks member
  flatten := s.flatten_chunks
  padding := by
    have covered := s.valid.dbSize_le
    have short := s.valid.paddedSize_lt_add
    rw [s.dbSize_eq] at covered short
    rw [Params.paddedSize] at short ⊢
    omega
  chunk_ok_iff := s.chunk_ok_iff
  chunk_streamed := s.chunk_eq_ok_iff
  bytes {number words} given := by
    have length := s.length_of_mem_chunks (List.mem_of_getElem? (s.chunk_eq_ok_iff.mp given))
    have short := s.valid.chunkSize_lt small
    refine ⟨Words.encode words, by rw [chunkBytes, given]; rfl, Words.decode_encode ?_⟩
    rw [length]
    exact short
  read within := ⟨s.readDirect_of_lt within, s.chunk_of_index within⟩
  address _ within _ below := s.chunks_address within below
  processed := s.process_of_streamed

/-- **Streaming.**  The chunks of a server are its database, cut into equal parts with zeros at the
end of the last, and whatever is read or computed in another way agrees with them. -/
theorem streaming {words : Array UInt64} (nonempty : 0 < words.size)
    (small : words.size < UInt64.size) :
    ∃ s, ofWords words = .ok s ∧ s.words = words ∧ s.Streams := by
  obtain ⟨s, made, same⟩ := ofWords_ok nonempty
  refine ⟨s, made, same, s.streams ?_⟩
  rw [s.dbSize_eq, same]
  exact small

/-- Five words in three chunks, the last of them filled with a zero. -/
theorem streaming_of_five_words :
    ∃ s, ofWords #[1, 2, 3, 4, 5] = .ok s ∧ s.chunks.length = 3
      ∧ s.chunks.flatten = [1, 2, 3, 4, 5, 0] ∧ s.readDirect 4 = .ok 5
      ∧ (∃ words, s.chunk 2 = .ok words ∧ words[0]? = some 5)
      ∧ ¬ ∃ words, s.chunk 3 = .ok words := by
  have nonempty : 0 < (#[1, 2, 3, 4, 5] : Array UInt64).size := by decide
  obtain ⟨s, made, same, streams⟩ := streaming nonempty (by decide)
  have dbSize : s.params.dbSize = 5 := by
    rw [s.dbSize_eq, same]
    rfl
  have size : s.params.chunkSize = 2 := by
    rw [s.valid.chunkSize_eq, dbSize]
    decide
  have count : s.params.chunkCount = 3 := by rw [s.valid.chunkCount_eq, dbSize, size]
  have within : 4 < s.words.size := by rw [same]; decide
  have fifth : s.words[4] = 5 := by simp only [same]; rfl
  obtain ⟨direct, streamed⟩ := streams.read within
  rw [fifth] at direct streamed
  rw [Params.chunkOf, Params.offsetInChunk, size] at streamed
  refine ⟨s, made, streams.count.trans count, ?_, direct, streamed, ?_⟩
  · rw [streams.flatten, Params.paddedSize, size, count, same]
    rfl
  · rw [streams.chunk_ok_iff, count]
    exact Nat.lt_irrefl 3

end Server

end PrivateRetrieval
