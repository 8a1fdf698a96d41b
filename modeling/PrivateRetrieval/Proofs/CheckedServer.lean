/-
The wire and the server never leave their bounds.

Bytes are cut at fixed places and in pieces of eight, and the server looks up words at
positions that it computes from a query.  Whatever bytes and offsets it is given, each of
these steps has a value, and the numbers in between fit into a word:

* **`Checked.decode_eq`**, **`Checked.encode_eq`** — bytes of any kind are decoded, and lists
  of words are encoded as long as their bytes can be counted;
* **`Checked.slide_eq`** — the parities are written one behind the other, up to the last place;
* **`Checked.process_eq`**, **`Checked.respond_eq`**, **`Checked.chunks_eq`** — so the server
  does with its partial steps made explicit what it does without.
-/
import PrivateRetrieval.Proofs.Candidates
import PrivateRetrieval.Proofs.Checked
import PrivateRetrieval.Proofs.Steps
import PrivateRetrieval.Proofs.WordCodec

namespace PrivateRetrieval

theorem LittleEndian.decode_append_zeros (bytes : Bytes) (count : Nat) :
    decode (bytes ++ List.replicate count 0) = decode bytes := by
  induction bytes with
  | nil =>
    rw [List.nil_append, decode]
    induction count with
    | zero => rfl
    | succ count ih =>
      rw [List.replicate_succ, decode, ih]
      rfl
  | cons first rest ih => rw [List.cons_append, decode, decode, ih]

namespace Checked

variable {α σ : Type}

/-! ### Wire -/

theorem readWord_eq (bytes : Bytes) :
    readWord bytes = .ok (UInt64.ofNat (LittleEndian.decode (bytes.take wordWidth))) := by
  have count : min bytes.length wordWidth ≤ (List.replicate wordWidth (0 : UInt8)).length := by
    rw [List.length_replicate]
    exact Nat.min_le_right _ _
  have same : ((List.replicate wordWidth (0 : UInt8)).take (min bytes.length wordWidth)).length
      = (bytes.take (min bytes.length wordWidth)).length := by
    simp
  unfold readWord
  dsimp only
  rw [splitAt_of_le count, ok_bind, splitAt_of_le (Nat.min_le_left _ _), ok_bind,
    copy_of_length same, ok_bind, List.drop_replicate, LittleEndian.decode_append_zeros,
    Nat.min_comm, ← List.take_eq_take_min]
  rfl

theorem writeWord_eq (word : UInt64) (bytes : Bytes) :
    writeWord word bytes
      = .ok ((Words.encodeWord word).take bytes.length ++ bytes.drop wordWidth) := by
  have length := Words.length_encodeWord word
  have count : min bytes.length wordWidth ≤ (Words.encodeWord word).length := by
    rw [length]
    exact Nat.min_le_right _ _
  have same : (bytes.take (min bytes.length wordWidth)).length
      = ((Words.encodeWord word).take (min bytes.length wordWidth)).length := by
    rw [List.length_take, List.length_take, length]
    omega
  have digits : (Words.encodeWord word).take (min bytes.length wordWidth)
      = (Words.encodeWord word).take bytes.length := by
    rw [← length, ← List.take_eq_take_min]
  have rest : bytes.drop (min bytes.length wordWidth) = bytes.drop wordWidth := by
    rw [Nat.min_comm, ← List.drop_eq_drop_min]
  unfold writeWord
  dsimp only
  rw [splitAt_of_le (Nat.min_le_left _ _), ok_bind, splitAt_of_le count, ok_bind,
    copy_of_length same, ok_bind, digits, rest]
  rfl

/-- A place of eight bytes takes the whole word. -/
theorem writeWord_of_length (word : UInt64) {bytes : Bytes} (length : bytes.length = wordWidth) :
    writeWord word bytes = .ok (Words.encodeWord word) := by
  rw [writeWord_eq, length, List.drop_of_length_le (Nat.le_of_eq length), List.append_nil,
    List.take_of_length_le (Nat.le_of_eq (Words.length_encodeWord word))]

theorem decode_eq (bytes : Bytes) : decode bytes = .ofExcept (Words.decode bytes) := by
  unfold decode
  rw [Words.decode]
  by_cases short : bytes.length < prefixWidth
  · rw [if_pos short, if_pos short]
    rfl
  rw [if_neg short, if_neg short]
  have declared :
      (UInt64.ofNat (LittleEndian.decode ((bytes.take prefixWidth).take wordWidth))).toNat
        = LittleEndian.decode (bytes.take prefixWidth) := by
    have bound := Words.declared_lt bytes
    rw [Words.declared] at bound
    rw [List.take_take, Nat.min_eq_right (by decide)]
    refine UInt64.toNat_ofNat_of_lt' (Nat.lt_trans bound (by decide))
  have fits : LittleEndian.decode (bytes.take prefixWidth) * wordWidth < UInt64.size := by
    have bound := Words.declared_lt bytes
    rw [Words.declared] at bound
    simp only [wordWidth, UInt32.size, UInt64.size] at bound ⊢
    omega
  dsimp only
  rw [splitAt_of_le (Nat.le_of_not_lt short), ok_bind, readWord_eq, ok_bind, declared,
    product_of_lt fits, ok_bind]
  by_cases whole : (bytes.drop prefixWidth).length
      = LittleEndian.decode (bytes.take prefixWidth) * wordWidth
  · rw [if_neg (fun differs => differs whole), if_neg (fun differs => differs whole),
      pieces_of_pos (by decide), ok_bind, whole, Nat.mul_div_cancel _ (by decide),
      each_of_ok fun piece _ => readWord_eq piece, Words.decodeBody_eq, List.map_map]
    refine congrArg Outcome.ok (List.map_congr_left fun place _ => ?_)
    rw [Function.comp_apply, List.take_take, Nat.min_self]
  · rw [if_pos whole, if_pos whole]
    rfl

/-- Words are written one by one, each into a place of its own. -/
theorem each_writeWord {places : List Bytes} {words : List UInt64}
    (enough : places.length = words.length) (width : ∀ place ∈ places, place.length = wordWidth) :
    each (fun (place, word) => writeWord word place) (places.zip words)
      = .ok (words.map Words.encodeWord) := by
  have written : ∀ both ∈ places.zip words,
      writeWord both.2 both.1 = .ok (Words.encodeWord both.2) := fun both member =>
    writeWord_of_length both.2 (width both.1 (List.of_mem_zip member).1)
  refine (each_of_ok written).trans (congrArg Outcome.ok ?_)
  have own : (places.zip words).map (fun both => Words.encodeWord both.2)
      = ((places.zip words).map Prod.snd).map Words.encodeWord := by
    rw [List.map_map]
    rfl
  rw [own, List.map_snd_zip (Nat.le_of_eq enough.symm)]

theorem encode_eq {words : List UInt64}
    (short : prefixWidth + words.length * wordWidth < UInt64.size) :
    encode words = .ok (Words.encode words) := by
  have body : words.length * wordWidth < UInt64.size := by omega
  have room : prefixWidth ≤ (List.replicate (prefixWidth + words.length * wordWidth)
      (0 : UInt8)).length := by
    rw [List.length_replicate]
    omega
  have front : ((List.replicate (prefixWidth + words.length * wordWidth) (0 : UInt8)).take
      prefixWidth).length = (LittleEndian.encode prefixWidth words.length).length := by
    rw [LittleEndian.length_encode, List.length_take_of_le room]
  unfold encode
  rw [product_of_lt body, ok_bind, sum_of_lt short, ok_bind, splitAt_of_le room, ok_bind,
    copy_of_length front, ok_bind, pieces_of_pos (by decide), ok_bind, each_writeWord]
  · rfl
  · rw [List.length_map, List.length_range, List.length_drop, List.length_replicate,
      Nat.add_sub_cancel_left, Nat.mul_div_cancel _ (by decide)]
  · intro place member
    obtain ⟨number, within, rfl⟩ := List.mem_map.mp member
    rw [List.length_drop, List.length_replicate, Nat.add_sub_cancel_left,
      Nat.mul_div_cancel _ (by decide), List.mem_range] at within
    have after : number * wordWidth + wordWidth ≤ words.length * wordWidth := by
      rw [← Nat.succ_mul]
      exact Nat.mul_le_mul_right _ within
    rw [List.length_take, List.length_drop, List.length_drop, List.length_replicate]
    omega

/-- Lists that are as long as a database has chunks at most are far from too long. -/
theorem encode_of_few {words : List UInt64} (few : words.length < UInt32.size + 2) :
    encode words = .ok (Words.encode words) := by
  refine encode_eq ?_
  simp only [prefixWidth, wordWidth, UInt32.size, UInt64.size] at few ⊢
  omega

/-! ### Server -/

section Server

variable {s : Server}

theorem wordAt_eq (s : Server) (index : Nat) : wordAt s index = .ok (s.wordAt index) := by
  rw [wordAt, s.dbSize_eq, Server.wordAt]
  by_cases within : index < s.words.size
  · rw [if_pos within, Array.getD_eq_getD_getElem?, Array.getElem?_eq_getElem within,
      Option.getD_some]
    exact entry_of_getElem? (by rw [Array.getElem?_toList, Array.getElem?_eq_getElem within])
  · rw [if_neg within, Array.getD_eq_getD_getElem?,
      Array.getElem?_eq_none (Nat.le_of_not_lt within)]
    rfl

theorem readDirect_eq (s : Server) (index : Nat) :
    readDirect s index = .ofExcept (s.readDirect index) := by
  rw [readDirect, Server.readDirect]
  by_cases past : s.params.dbSize ≤ index
  · rw [if_pos past, if_pos past]
    rfl
  · have found := wordAt_eq s index
    rw [wordAt, if_pos (Nat.lt_of_not_le past)] at found
    rw [if_neg past, if_neg past, found]
    rfl

theorem word_eq (small : s.params.dbSize < UInt64.size) {chunk offset : Nat}
    (within : chunk < s.params.chunkCount) (below : offset < s.params.chunkSize) :
    word s chunk offset = .ok (s.word chunk offset) := by
  have fits := s.valid.chunk_end_lt small within
  rw [word, product_of_lt (by omega), ok_bind, sum_of_lt (by omega), ok_bind, wordAt_eq]
  rfl

theorem paddedChunk_eq (small : s.params.dbSize < UInt64.size) {chunk : Nat}
    (within : chunk < s.params.chunkCount) : paddedChunk s chunk = .ok (s.paddedChunk chunk) := by
  have fits := s.valid.chunk_end_lt small within
  rw [paddedChunk, product_of_lt (by omega), ok_bind, sum_of_lt fits, ok_bind,
    each_of_ok fun index _ => wordAt_eq s index, Nat.add_sub_cancel_left, List.range'_eq_map_range,
    List.map_map]
  rfl

theorem chunk_eq (small : s.params.dbSize < UInt64.size) (number : Nat) :
    chunk s number = .ofExcept (s.chunk number) := by
  rw [chunk, Server.chunk]
  by_cases past : s.params.chunkCount ≤ number
  · rw [if_pos past, if_pos past]
    rfl
  · rw [if_neg past, if_neg past, paddedChunk_eq small (Nat.lt_of_not_le past)]
    rfl

theorem chunkBytes_eq (small : s.params.dbSize < UInt64.size) (number : Nat) :
    chunkBytes s number = .ofExcept (s.chunkBytes number) := by
  rw [chunkBytes, chunk_eq small, Server.chunkBytes, Server.chunk]
  by_cases past : s.params.chunkCount ≤ number
  · rw [if_pos past]
    rfl
  · have few : (s.paddedChunk number).length < UInt32.size + 2 := by
      have short := s.valid.chunkSize_lt small
      rw [Server.paddedChunk, List.length_map, List.length_range]
      omega
    rw [if_neg past]
    exact encode_of_few few

theorem chunks_eq (small : s.params.dbSize < UInt64.size) : chunks s = .ok s.chunks :=
  each_of_ok fun _ member => paddedChunk_eq small (List.mem_range.mp member)

/-! ### Parities -/

theorem parityFrom_eq (small : s.params.dbSize < UInt64.size) {offsets : List Nat}
    (below : ∀ offset ∈ offsets, offset < s.params.chunkSize) (parity : UInt64) {position : Nat}
    (within : position + offsets.length < s.params.chunkCount) :
    parityFrom s parity position offsets
      = .ok (parity ^^^ s.parityFrom (position + 1) offsets) := by
  induction offsets generalizing parity position with
  | nil =>
    rw [parityFrom, Server.parityFrom, UInt64.xor_zero]
  | cons offset rest ih =>
    rw [List.length_cons] at within
    have next : position + 1 < UInt64.size := s.valid.chunk_lt small (by omega)
    rw [parityFrom, sum_of_lt next, ok_bind,
      word_eq small (by omega) (below offset List.mem_cons_self), ok_bind,
      ih (fun later member => below later (List.mem_cons_of_mem offset member)) _ (by omega),
      Server.parityFrom_cons, UInt64.xor_assoc]

/-- What has been written stays, and the zeros behind it are overwritten one by one. -/
theorem slide_eq (small : s.params.dbSize < UInt64.size) {offsets : List Nat}
    (below : ∀ offset ∈ offsets, offset < s.params.chunkSize) (written : List UInt64)
    (parity : UInt64) (within : written.length + offsets.length < s.params.chunkCount) :
    slide s (written ++ parity :: List.replicate offsets.length 0) written.length offsets
      = .ok (written ++ s.slide written.length parity offsets) := by
  induction offsets generalizing written parity with
  | nil => rfl
  | cons offset rest ih =>
    rw [List.length_cons] at within
    have next : written.length + 1 < UInt64.size := s.valid.chunk_lt small (by omega)
    have inChunk := below offset List.mem_cons_self
    have own : (written ++ parity :: List.replicate (offset :: rest).length 0)[written.length]?
        = some parity := by
      rw [List.getElem?_append_right (Nat.le_refl _), Nat.sub_self, List.getElem?_cons_zero]
    have room : written.length + 1
        < (written ++ parity :: List.replicate (offset :: rest).length 0).length := by
      simp
    rw [slide, sum_of_lt next, ok_bind, word_eq small (by omega) inChunk, ok_bind,
      word_eq small (by omega) inChunk, ok_bind, entry_of_getElem? own, ok_bind,
      put_of_lt room, ok_bind]
    -- The first of the zeros is overwritten, and counts as written in the next step.
    generalize fresh :
      parity ^^^ s.word (written.length + 1) offset ^^^ s.word written.length offset = parity'
    have moved : (written ++ parity :: List.replicate (offset :: rest).length 0).set
          (written.length + 1) parity'
        = written ++ [parity] ++ parity' :: List.replicate rest.length 0 := by
      rw [List.set_append_right _ _ (by omega), Nat.add_sub_cancel_left]
      simp [List.replicate_succ]
    have length : (written ++ [parity]).length = written.length + 1 := by simp
    have tail := ih (fun later member => below later (List.mem_cons_of_mem offset member))
      (written ++ [parity]) parity' (by omega)
    rw [length] at tail
    rw [moved, tail, Server.slide, List.append_assoc, List.singleton_append, ← fresh]
    rfl

/-- A parity for every chunk is written, that of the first apart from the others. -/
theorem parities_eq (small : s.params.dbSize < UInt64.size) {offsets : List Nat}
    (length : offsets.length + 1 = s.params.chunkCount)
    (below : ∀ offset ∈ offsets, offset < s.params.chunkSize) :
    parities s offsets = .ok (s.slide 0 (s.parityFrom 1 offsets) offsets) := by
  have zeros : List.replicate s.params.chunkCount (0 : UInt64)
      = 0 :: List.replicate offsets.length 0 := by
    rw [← length, List.replicate_succ]
  have room : 0 < (0 :: List.replicate offsets.length (0 : UInt64)).length := Nat.succ_pos _
  rw [parities, parityFrom_eq small below 0 (by omega), ok_bind, zeros, put_of_lt room, ok_bind,
    UInt64.zero_xor]
  exact slide_eq small below [] _ (by simp only [List.length_nil]; omega)

theorem process_eq (small : s.params.dbSize < UInt64.size) (offsets : List Nat) (state : σ) :
    process s offsets state = (s.process offsets).toAction state := by
  have pos : 1 ≤ s.params.chunkCount := s.valid.chunkCount_pos
  rw [process, difference_of_le pos, Action.done_ok_bind]
  by_cases length : offsets.length = s.params.chunkCount - 1
  · rw [if_neg (fun differs => differs length)]
    cases found : offsets.findIdx? (fun offset => decide (s.params.chunkSize ≤ offset)) with
    | some position =>
      have within := (List.findIdx?_eq_some_iff_getElem.mp found).1
      have there : offsets[position]? = some (offsets.getD position 0) := by
        rw [List.getD_eq_getElem?_getD, List.getElem?_eq_getElem within, Option.getD_some]
      dsimp only
      rw [entry_of_getElem? there, Action.done_ok_bind, Server.process,
        if_neg (fun differs => differs length), found]
      rfl
    | none =>
      have below : ∀ offset ∈ offsets, offset < s.params.chunkSize := fun offset member => by
        simpa using List.findIdx?_eq_none_iff.mp found offset member
      dsimp only
      rw [parities_eq small (by omega) below, Action.done_ok_bind,
        s.process_eq_of_valid length below]
      rfl
  · have differs : offsets.length ≠ s.params.puncturedLength := length
    rw [if_pos length, Server.process, if_pos differs]
    rfl

theorem respond_eq (small : s.params.dbSize < UInt64.size) (query : Bytes) (state : σ) :
    respond s query state = (s.respond query).toAction state := by
  rw [respond, decode_eq]
  cases decoded : Words.decode query with
  | error cause =>
    rw [Server.respond, decoded]
    rfl
  | ok words =>
    rw [Outcome.ofExcept, Action.done_ok_bind, s.respond_of_decoded decoded,
      Action.bind_congr_left (process_eq small (words.map UInt64.toNat) state)]
    show Action.bind _ _ state = (Reply.bind _ _).toAction state
    rw [Action.bind, Reply.bind, Reply.toAction]
    cases told : (s.process (words.map UInt64.toNat)).result with
    | error cause => rfl
    | ok parities =>
      obtain ⟨parities', told', length, -⟩ :=
        Server.process_of_fits (Server.fits_of_process_ok told)
      obtain rfl : parities' = parities := Except.ok.inj (told'.symm.trans told)
      have few := s.valid.chunkCount_lt small
      rw [← length] at few
      dsimp only [Outcome.ofExcept]
      rw [encode_of_few few]
      rfl

end Server

end Checked

end PrivateRetrieval
