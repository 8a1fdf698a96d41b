/-
The server's candidates.

The server computes one parity for every chunk that may have been left out, each
from the one before.  Whatever was left out, the candidate there is the parity of
the words that the offsets pick in all other chunks:

* **`Server.slide_getElem?`** — the sliding window in closed form: offsets before
  the puncture apply to the chunks before it, the others to the chunks after;
* **`Server.slide_eq_xorExcept`** — so each candidate is a parity over all chunks
  but one, at the offsets that then apply (`Server.appliedOffset`);
* **`Server.process_eraseIdx`** — the candidate of a punctured trace;
* **`Server.wordIn_chunks`** — the streamed chunks hold the words that the
  candidates are made of.
-/
import PrivateRetrieval.Proofs.Offline
import PrivateRetrieval.Server

namespace PrivateRetrieval

theorem Reply.bind_eq_ok {α β : Type} {reply : Reply α} {next : α → Reply β} {value : β}
    (h : (reply >>= next).result = .ok value) :
    ∃ first, reply.result = .ok first ∧ (next first).result = .ok value := by
  have h : (Reply.bind reply next).result = .ok value := h
  unfold Reply.bind at h
  split at h
  · rename_i first told
    exact ⟨first, told, h⟩
  · exact absurd h (by simp)

namespace Server

variable (s : Server)

theorem valid : s.params.Valid := Params.Derived.valid (.inl s.derived)

theorem dbSize_eq : s.params.dbSize = s.words.size := Params.Derived.dbSize_eq (.inl s.derived)

/-- The word at an offset of a chunk. -/
def word (chunk offset : Nat) : UInt64 := s.wordAt (chunk * s.params.chunkSize + offset)

theorem parityFrom_cons (chunk offset : Nat) (rest : List Nat) :
    s.parityFrom chunk (offset :: rest)
      = s.word chunk offset ^^^ s.parityFrom (chunk + 1) rest := rfl

theorem parityFrom_append (chunk : Nat) (front back : List Nat) :
    s.parityFrom chunk (front ++ back)
      = s.parityFrom chunk front ^^^ s.parityFrom (chunk + front.length) back := by
  induction front generalizing chunk with
  | nil => rw [List.nil_append, parityFrom, UInt64.zero_xor, List.length_nil, Nat.add_zero]
  | cons offset front ih =>
    rw [List.cons_append, parityFrom_cons, parityFrom_cons, ih, List.length_cons, UInt64.xor_assoc,
      Nat.add_assoc, Nat.add_comm 1]

theorem parityFrom_range (offset : Nat → Nat) (count : Nat) :
    s.parityFrom 0 ((List.range count).map offset)
      = xorBelow (fun chunk => s.word chunk (offset chunk)) count := by
  induction count with
  | zero => rfl
  | succ count ih =>
    rw [List.range_succ, List.map_append, parityFrom_append, ih, List.length_map, List.length_range,
      Nat.zero_add, xorBelow]
    exact congrArg (_ ^^^ ·) UInt64.xor_zero

theorem parityFrom_zero (offsets : List Nat) : s.parityFrom 0 offsets
    = xorBelow (fun chunk => s.word chunk (offsets.getD chunk 0)) offsets.length := by
  have listed : (List.range offsets.length).map (offsets.getD · 0) = offsets := by
    refine List.ext_getElem (by simp) fun place _ within => ?_
    simp [List.getD_eq_getElem?_getD, within]
  rw [← parityFrom_range, listed]

/-- The candidate for a puncture `steps` chunks on: the offsets that the window has
passed apply one chunk earlier than the rest. -/
theorem slide_getElem? (offsets : List Nat) : ∀ (chunk : Nat) (passed : UInt64) {steps : Nat},
    steps ≤ offsets.length →
    (s.slide chunk (passed ^^^ s.parityFrom (chunk + 1) offsets) offsets)[steps]?
      = some (passed ^^^ s.parityFrom chunk (offsets.take steps)
          ^^^ s.parityFrom (chunk + steps + 1) (offsets.drop steps)) := by
  induction offsets with
  | nil =>
    intro chunk passed steps within
    obtain rfl : steps = 0 := Nat.le_zero.mp within
    simp [slide, parityFrom]
  | cons offset rest ih =>
    intro chunk passed steps within
    match steps with
    | 0 => simp [slide, parityFrom]
    | steps + 1 =>
      -- Moving on by a chunk takes the word after the puncture out and the one before it in.
      have moved : passed ^^^ s.parityFrom (chunk + 1) (offset :: rest)
            ^^^ s.word (chunk + 1) offset ^^^ s.word chunk offset
          = (passed ^^^ s.word chunk offset) ^^^ s.parityFrom (chunk + 1 + 1) rest := by
        rw [parityFrom_cons]
        calc passed ^^^ (s.word (chunk + 1) offset ^^^ s.parityFrom (chunk + 1 + 1) rest)
              ^^^ s.word (chunk + 1) offset ^^^ s.word chunk offset
            = passed ^^^ s.word chunk offset ^^^ s.parityFrom (chunk + 1 + 1) rest
                ^^^ s.word (chunk + 1) offset ^^^ s.word (chunk + 1) offset := by ac_rfl
          _ = _ := xor_xor_cancel_right _ _
      have here := ih (chunk + 1) (passed ^^^ s.word chunk offset)
        (Nat.le_of_succ_le_succ within : steps ≤ rest.length)
      rw [← moved] at here
      rw [slide, List.getElem?_cons_succ, List.take_succ_cons, List.drop_succ_cons]
      refine here.trans ?_
      rw [parityFrom_cons, ← UInt64.xor_assoc passed, Nat.add_assoc chunk 1, Nat.add_comm 1 steps]

theorem length_slide (chunk : Nat) (parity : UInt64) (offsets : List Nat) :
    (s.slide chunk parity offsets).length = offsets.length + 1 := by
  induction offsets generalizing chunk parity with
  | nil => rfl
  | cons offset rest ih => rw [slide, List.length_cons, ih, List.length_cons]

/-- The offset that applies to a chunk when `left` is the chunk that was left out. -/
def appliedOffset (offsets : List Nat) (left chunk : Nat) : Nat :=
  if chunk < left then offsets.getD chunk 0 else offsets.getD (chunk - 1) 0

/-- With a place kept free for the chunk that was left out, every offset stands at the
chunk to which it applies. -/
private theorem getD_take_cons_drop {offsets : List Nat} {left chunk : Nat}
    (within : left ≤ offsets.length) (other : chunk ≠ left) :
    (offsets.take left ++ 0 :: offsets.drop left).getD chunk 0
      = appliedOffset offsets left chunk := by
  have front : (offsets.take left).length = left := List.length_take_of_le within
  rw [appliedOffset, List.getD_eq_getElem?_getD]
  by_cases before : chunk < left
  · rw [if_pos before, List.getElem?_append_left (by omega), List.getElem?_take_of_lt before,
      List.getD_eq_getElem?_getD]
  · obtain ⟨past, rfl⟩ : ∃ past, chunk = left + past + 1 := ⟨chunk - left - 1, by omega⟩
    have place : left + past + 1 - left = past + 1 := by omega
    rw [if_neg before, List.getElem?_append_right (by omega), front, place,
      List.getElem?_cons_succ, List.getElem?_drop, Nat.add_sub_cancel, List.getD_eq_getElem?_getD]

/-- The candidate for a chunk that was left out is the parity of the words that the
offsets pick in all others. -/
theorem slide_eq_xorExcept {offsets : List Nat} {left : Nat} (within : left ≤ offsets.length) :
    (s.slide 0 (s.parityFrom 1 offsets) offsets)[left]?
      = some (xorExcept (fun chunk => s.word chunk (appliedOffset offsets left chunk))
          (offsets.length + 1) left) := by
  have window := s.slide_getElem? offsets 0 0 within
  rw [UInt64.zero_xor, UInt64.zero_xor, Nat.zero_add, Nat.zero_add] at window
  have front : (offsets.take left).length = left := List.length_take_of_le within
  -- The word at the free place is in the parity of the filled list, and is taken out of it.
  let filled := offsets.take left ++ 0 :: offsets.drop left
  have length : filled.length = offsets.length + 1 := by
    simp only [filled, List.length_append, List.length_cons, List.length_drop, front]
    omega
  have free : filled.getD left 0 = 0 := by
    simp only [filled, List.getD_eq_getElem?_getD, List.getElem?_append_right, front, Nat.le_refl,
      Nat.sub_self, List.getElem?_cons_zero, Option.getD_some]
  have parity : s.parityFrom 0 filled = s.parityFrom 0 (offsets.take left)
      ^^^ (s.word left 0 ^^^ s.parityFrom (left + 1) (offsets.drop left)) := by
    rw [parityFrom_append, parityFrom_cons, front, Nat.zero_add]
  rw [window, ← xorExcept_congr fun chunk _ other =>
      congrArg (s.word chunk) (getD_take_cons_drop within other),
    xorExcept_eq_xorBelow (by omega), ← length, ← parityFrom_zero, free, parity]
  refine congrArg some ?_
  calc s.parityFrom 0 (offsets.take left) ^^^ s.parityFrom (left + 1) (offsets.drop left)
      = s.parityFrom 0 (offsets.take left) ^^^ s.parityFrom (left + 1) (offsets.drop left)
          ^^^ s.word left 0 ^^^ s.word left 0 := (xor_xor_cancel_right _ _).symm
    _ = _ := by ac_rfl

theorem process_eq_of_valid {offsets : List Nat}
    (length : offsets.length = s.params.puncturedLength)
    (within : ∀ offset ∈ offsets, offset < s.params.chunkSize) :
    s.process offsets
      = ⟨.ok (s.slide 0 (s.parityFrom 1 offsets) offsets), [.processed s.params.chunkCount]⟩ := by
  have found : offsets.findIdx? (fun offset => decide (s.params.chunkSize ≤ offset)) = none := by
    rw [List.findIdx?_eq_none_iff]
    intro offset member
    have below := within offset member
    exact decide_eq_false (by omega)
  rw [process, if_neg (fun differs => differs length), found]

theorem process_of_valid {offsets : List Nat} (length : offsets.length = s.params.puncturedLength)
    (within : ∀ offset ∈ offsets, offset < s.params.chunkSize) :
    (s.process offsets).result = .ok (s.slide 0 (s.parityFrom 1 offsets) offsets) := by
  rw [s.process_eq_of_valid length within]

/-- The candidate at the chunk that was left out is the parity of all others. -/
theorem process_eraseIdx {offset : Nat → Nat} {chunk : Nat} (within : chunk < s.params.chunkCount)
    (below : ∀ c, offset c < s.params.chunkSize) :
    ∃ parities, (s.process (((List.range s.params.chunkCount).map offset).eraseIdx chunk)).result
        = .ok parities
      ∧ parities.length = s.params.chunkCount
      ∧ parities[chunk]?
        = some (xorExcept (fun c => s.word c (offset c)) s.params.chunkCount chunk) := by
  generalize whole : ((List.range s.params.chunkCount).map offset).eraseIdx chunk = offsets
  have length : offsets.length = s.params.puncturedLength := by
    rw [← whole, List.length_eraseIdx, List.length_map, List.length_range, if_pos within,
      Params.puncturedLength]
  have count : offsets.length + 1 = s.params.chunkCount := by
    rw [length, Params.puncturedLength]
    omega
  have valid : ∀ o ∈ offsets, o < s.params.chunkSize := by
    intro o member
    obtain ⟨c, -, rfl⟩ := List.mem_map.mp (List.mem_of_mem_eraseIdx (whole ▸ member))
    exact below c
  -- Behind the offset that is left out all others have moved one place to the front.
  have applied {c : Nat} (inside : c < s.params.chunkCount) (other : c ≠ chunk) :
      appliedOffset offsets chunk c = offset c := by
    rw [appliedOffset, ← whole, List.getD_eq_getElem?_getD, List.getD_eq_getElem?_getD,
      List.getElem?_eraseIdx, List.getElem?_eraseIdx]
    by_cases before : c < chunk
    · simp [before, inside]
    · have place : c - 1 + 1 = c := by omega
      simp [before, place, inside, show ¬ c - 1 < chunk by omega]
  refine ⟨_, s.process_of_valid length valid, ?_, ?_⟩
  · rw [length_slide, count]
  · rw [slide_eq_xorExcept s (by omega), count]
    exact congrArg some (xorExcept_congr fun c inside other =>
      congrArg (s.word c) (applied inside other))

/-- A query that can be decoded is answered as its offsets are, in bytes. -/
theorem respond_of_decoded {query : Bytes} {words : List UInt64}
    (decoded : Words.decode query = .ok words) :
    s.respond query
      = s.process (words.map UInt64.toNat) >>= fun parities => pure (Words.encode parities) := by
  rw [respond, decoded]
  rfl

theorem respond_eq_ok {query response : Bytes} (h : (s.respond query).result = .ok response) :
    ∃ words parities, Words.decode query = .ok words
      ∧ (s.process (words.map UInt64.toNat)).result = .ok parities
      ∧ response = Words.encode parities := by
  obtain ⟨words, decoded, h⟩ := Reply.bind_eq_ok h
  obtain ⟨parities, told, h⟩ := Reply.bind_eq_ok h
  exact ⟨words, parities, decoded, told, (Except.ok.inj h).symm⟩

/-! ### Streamed chunks -/

theorem length_chunks : s.chunks.length = s.params.chunkCount := by
  rw [chunks, List.length_map, List.length_range]

theorem length_of_mem_chunks {words : Chunk} (member : words ∈ s.chunks) :
    words.length = s.params.chunkSize := by
  obtain ⟨chunk, -, rfl⟩ := List.mem_map.mp member
  rw [paddedChunk, List.length_map, List.length_range]

/-- A client that reads the chunks meets the words that the server computes with. -/
theorem wordIn_chunks {chunk offset : Nat} (within : chunk < s.params.chunkCount)
    (below : offset < s.params.chunkSize) : wordIn s.chunks chunk offset = s.word chunk offset := by
  have chunkThere : s.chunks.getD chunk [] = s.paddedChunk chunk := by
    rw [chunks, List.getD_eq_getElem?_getD, List.getElem?_map, List.getElem?_range within]
    rfl
  rw [wordIn, chunkThere, paddedChunk, List.getD_eq_getElem?_getD, List.getElem?_map,
    List.getElem?_range below]
  rfl

theorem wordIn_chunks_of_index {index : Nat} (within : index < s.words.size) :
    wordIn s.chunks (s.params.chunkOf index) (s.params.offsetInChunk index) = s.words[index] := by
  have inDb : index < s.params.dbSize := by rw [s.dbSize_eq]; exact within
  have below : s.params.offsetInChunk index < s.params.chunkSize :=
    Nat.mod_lt _ s.valid.chunkSize_pos
  rw [wordIn_chunks s (s.valid.chunkOf_lt inDb) below, word, wordAt, Params.chunkOf,
    Params.offsetInChunk, Nat.mul_comm, Nat.div_add_mod, Array.getD_eq_getD_getElem?,
    Array.getElem?_eq_getElem within, Option.getD_some]

end Server

end PrivateRetrieval
