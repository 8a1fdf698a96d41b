/-
Lists of words survive the wire.

A list is decoded as it was encoded, if its length fits into the count in front;
a longer one is refused and never taken for another list.  Nor is anything decoded
that is not an encoding, so that each list has one message and each message one list:

* **`Words.decode_encode`** — the round trip of a list that fits;
* **`Words.of_decode_encode`** — whatever is decoded from an encoding is the list
  that was encoded;
* **`Words.encode_of_decode`** — whatever is decoded is the encoding of what comes out;
* **`Words.exact_codec`** — which bytes are messages, told by lengths alone, and that
  none is the beginning of another.
-/
import PrivateRetrieval.Wire.Words

namespace PrivateRetrieval.Words

/-- Numbers that are words survive as words. -/
theorem toNat_ofNat {numbers : List Nat} (words : ∀ number ∈ numbers, number < UInt64.size) :
    (numbers.map UInt64.ofNat).map UInt64.toNat = numbers := by
  rw [List.map_map]
  refine (List.map_congr_left fun number member => ?_).trans (List.map_id numbers)
  exact UInt64.toNat_ofNat_of_lt' (words number member)

theorem length_encodeWord (word : UInt64) : (encodeWord word).length = wordWidth :=
  LittleEndian.length_encode wordWidth word.toNat

theorem decode_encodeWord (word : UInt64) :
    UInt64.ofNat (LittleEndian.decode (encodeWord word)) = word := by
  have fits : word.toNat < LittleEndian.capacity wordWidth := word.toNat_lt
  rw [encodeWord, LittleEndian.decode_encode fits, UInt64.ofNat_toNat]

theorem length_flatMap_encodeWord (words : List UInt64) :
    (words.flatMap encodeWord).length = words.length * wordWidth := by
  induction words with
  | nil => rfl
  | cons word rest ih =>
    rw [List.flatMap_cons, List.length_append, length_encodeWord, ih, List.length_cons,
      Nat.succ_mul, Nat.add_comm]

theorem decodeBody_flatMap (words : List UInt64) :
    decodeBody words.length (words.flatMap encodeWord) = words := by
  induction words with
  | nil => rfl
  | cons word rest ih =>
    have width := length_encodeWord word
    rw [List.length_cons, List.flatMap_cons, decodeBody, List.take_left' width,
      List.drop_left' width, decode_encodeWord, ih]

/-- What decoding reads of an encoding: the count and the body. -/
theorem decode_encode_eq (words : List UInt64) :
    decode (encode words) =
      let declared := LittleEndian.decode (LittleEndian.encode prefixWidth words.length)
      if words.length * wordWidth ≠ declared * wordWidth then
        .error (.undecodable (.lengthMismatch declared (words.length * wordWidth)))
      else .ok (decodeBody declared (words.flatMap encodeWord)) := by
  have front : (LittleEndian.encode prefixWidth words.length).length = prefixWidth :=
    LittleEndian.length_encode prefixWidth words.length
  -- The first of the two length checks never refuses an encoding.
  have long : ¬ (encode words).length < prefixWidth := by
    rw [encode, List.length_append, front]
    omega
  rw [decode, if_neg long, encode, List.take_left' front, List.drop_left' front]
  dsimp only
  rw [length_flatMap_encodeWord]

theorem decode_encode {words : List UInt64}
    (short : words.length < LittleEndian.capacity prefixWidth) :
    decode (encode words) = .ok words := by
  rw [decode_encode_eq, LittleEndian.decode_encode short]
  dsimp only
  rw [if_neg (fun differs => differs rfl), decodeBody_flatMap]

theorem of_decode_encode {words decoded : List UInt64}
    (h : decode (encode words) = .ok decoded) :
    words.length < LittleEndian.capacity prefixWidth ∧ decoded = words := by
  have short : words.length < LittleEndian.capacity prefixWidth := by
    rw [decode_encode_eq] at h
    dsimp only at h
    -- A count that was cut off is below the length, and the second check sees that.
    split at h
    · exact absurd h (by simp)
    · rename_i same
      have count := Nat.eq_of_mul_eq_mul_right (by decide) (Decidable.not_not.mp same)
      rw [count]
      have bound := LittleEndian.decode_lt (LittleEndian.encode prefixWidth words.length)
      rwa [LittleEndian.length_encode] at bound
  rw [decode_encode short] at h
  exact ⟨short, (Except.ok.inj h).symm⟩

/-! ### Messages and lists, one for one -/

theorem capacity_prefixWidth : LittleEndian.capacity prefixWidth = UInt32.size := rfl

theorem capacity_wordWidth : LittleEndian.capacity wordWidth = UInt64.size := rfl

theorem length_encode (words : List UInt64) :
    (encode words).length = prefixWidth + words.length * wordWidth := by
  rw [encode, List.length_append, LittleEndian.length_encode, length_flatMap_encodeWord]

theorem length_decodeBody (count : Nat) (bytes : Bytes) :
    (decodeBody count bytes).length = count := by
  induction count generalizing bytes with
  | zero => rfl
  | succ count ih => rw [decodeBody, List.length_cons, ih]

theorem encodeWord_decode {bytes : Bytes} (length : bytes.length = wordWidth) :
    encodeWord (UInt64.ofNat (LittleEndian.decode bytes)) = bytes := by
  have bound := LittleEndian.decode_lt bytes
  rw [length, capacity_wordWidth] at bound
  rw [encodeWord, UInt64.toNat_ofNat_of_lt' bound, ← length, LittleEndian.encode_decode]

/-- The bytes of a body are those of its words. -/
theorem flatMap_decodeBody {count : Nat} {bytes : Bytes}
    (length : bytes.length = count * wordWidth) :
    (decodeBody count bytes).flatMap encodeWord = bytes := by
  induction count generalizing bytes with
  | zero =>
    rw [Nat.zero_mul] at length
    rw [List.length_eq_zero_iff.mp length]
    rfl
  | succ count ih =>
    rw [Nat.succ_mul] at length
    have front : (bytes.take wordWidth).length = wordWidth :=
      List.length_take_of_le (by omega)
    have back : (bytes.drop wordWidth).length = count * wordWidth := by
      rw [List.length_drop]
      omega
    rw [decodeBody, List.flatMap_cons, encodeWord_decode front, ih back, List.take_append_drop]

/-- A body is read piece by piece. -/
theorem decodeBody_eq (count : Nat) (bytes : Bytes) :
    decodeBody count bytes = (List.range count).map fun place =>
      UInt64.ofNat (LittleEndian.decode ((bytes.drop (place * wordWidth)).take wordWidth)) := by
  induction count generalizing bytes with
  | zero => rfl
  | succ count ih =>
    rw [decodeBody, ih, List.range_succ_eq_map, List.map_cons, List.map_map]
    refine congrArg (List.cons _) (List.map_congr_left fun place _ => ?_)
    rw [List.drop_drop, Function.comp_apply, Nat.succ_mul, Nat.add_comm]

/-- The number of words that bytes declare in front. -/
def declared (bytes : Bytes) : Nat := LittleEndian.decode (bytes.take prefixWidth)

theorem declared_lt (bytes : Bytes) : declared bytes < UInt32.size :=
  LittleEndian.decode_take_lt prefixWidth bytes

theorem declared_encode {words : List UInt64} (short : words.length < UInt32.size) :
    declared (encode words) = words.length := by
  rw [declared, encode, List.take_left' (LittleEndian.length_encode prefixWidth words.length)]
  exact LittleEndian.decode_encode short

/-- Bytes are decoded just if there are as many as they declare; otherwise the shorter of the
two complaints that apply is made. -/
theorem decode_eq (bytes : Bytes) : decode bytes
    = if bytes.length < prefixWidth then .error (.undecodable (.shortPrefix bytes.length))
      else if bytes.length ≠ prefixWidth + declared bytes * wordWidth then
        .error (.undecodable (.lengthMismatch (declared bytes) (bytes.length - prefixWidth)))
      else .ok (decodeBody (declared bytes) (bytes.drop prefixWidth)) := by
  rw [decode]
  by_cases short : bytes.length < prefixWidth
  · rw [if_pos short, if_pos short]
  · rw [if_neg short, if_neg short]
    dsimp only
    rw [List.length_drop]
    by_cases whole : bytes.length = prefixWidth + declared bytes * wordWidth
    · rw [if_neg (fun differs => differs (by rw [declared] at whole; omega)),
        if_neg (fun differs => differs whole)]
      rfl
    · rw [if_pos (fun same => whole (by rw [declared]; omega)), if_pos whole]
      rfl

theorem encode_of_decode {words : List UInt64} {bytes : Bytes} (h : decode bytes = .ok words) :
    words.length < UInt32.size ∧ encode words = bytes := by
  rw [decode_eq] at h
  split at h
  · exact absurd h (by simp)
  rename_i long
  split at h
  · exact absurd h (by simp)
  rename_i whole
  obtain rfl := Except.ok.inj h
  have front : (bytes.take prefixWidth).length = prefixWidth :=
    List.length_take_of_le (by omega)
  have count := LittleEndian.encode_decode (bytes.take prefixWidth)
  rw [front] at count
  have body : (bytes.drop prefixWidth).length = declared bytes * wordWidth := by
    rw [List.length_drop]
    omega
  rw [encode, length_decodeBody, flatMap_decodeBody body, declared, count,
    List.take_append_drop]
  exact ⟨declared_lt bytes, rfl⟩

theorem decode_eq_ok_iff {words : List UInt64} {bytes : Bytes} :
    decode bytes = .ok words ↔ words.length < UInt32.size ∧ encode words = bytes := by
  refine ⟨encode_of_decode, ?_⟩
  rintro ⟨short, rfl⟩
  exact decode_encode short

theorem refused_iff {bytes : Bytes} : (∃ why, decode bytes = .error (.undecodable why))
    ↔ bytes.length < prefixWidth ∨ bytes.length ≠ prefixWidth + declared bytes * wordWidth := by
  rw [decode_eq]
  by_cases short : bytes.length < prefixWidth
  · rw [if_pos short]
    exact iff_of_true ⟨_, rfl⟩ (.inl short)
  rw [if_neg short]
  by_cases whole : bytes.length = prefixWidth + declared bytes * wordWidth
  · rw [if_neg (fun differs => differs whole)]
    exact iff_of_false (by simp) (not_or.mpr ⟨short, fun differs => differs whole⟩)
  · rw [if_pos whole]
    exact iff_of_true ⟨_, rfl⟩ (.inr whole)

theorem refused_iff_not_encoding {bytes : Bytes} :
    (∃ why, decode bytes = .error (.undecodable why))
      ↔ ¬ ∃ words : List UInt64, words.length < UInt32.size ∧ encode words = bytes := by
  constructor
  · rintro ⟨why, refused⟩ ⟨words, encodes⟩
    exact absurd (refused.symm.trans (decode_eq_ok_iff.mpr encodes)) (by simp)
  · intro never
    rw [refused_iff]
    refine Decidable.byContradiction fun measured => never ?_
    rw [not_or, Nat.not_lt, Decidable.not_not] at measured
    refine ⟨decodeBody (declared bytes) (bytes.drop prefixWidth), decode_eq_ok_iff.mp ?_⟩
    rw [decode_eq, if_neg (Nat.not_lt.mpr measured.1), if_neg (fun differs => differs measured.2)]

/-- A message tells its own length, so that none is the beginning of another. -/
theorem encode_prefix_free {words other : List UInt64} (short : words.length < UInt32.size)
    (short' : other.length < UInt32.size) (front : encode words <+: encode other) :
    words = other := by
  have count : declared (encode words) = declared (encode other) := by
    obtain ⟨rest, eq⟩ := front
    rw [← eq, declared, declared,
      List.take_append_of_le_length (by rw [length_encode]; exact Nat.le_add_right _ _)]
  rw [declared_encode short, declared_encode short'] at count
  have same : encode words = encode other :=
    front.eq_of_length (by rw [length_encode, length_encode, count])
  have decoded := decode_encode short
  rw [same, decode_encode short'] at decoded
  exact (Except.ok.inj decoded).symm

/-- **An exact codec.**  Lists whose length fits into the count and bytes that are as many as they
declare stand for each other, one for one; all other bytes are refused.  No message is the
beginning of another, and no declared length is past the words of the machine. -/
theorem exact_codec (words : List UInt64) (bytes : Bytes) :
    (words.length < UInt32.size →
      decode (encode words) = .ok words ∧ (encode words).length = 4 + 8 * words.length)
    ∧ (decode bytes = .ok words → words.length < UInt32.size ∧ encode words = bytes)
    ∧ ((∃ why, decode bytes = .error (.undecodable why))
      ↔ ¬ ∃ coded : List UInt64, coded.length < UInt32.size ∧ encode coded = bytes)
    ∧ ((∃ why, decode bytes = .error (.undecodable why))
      ↔ bytes.length < 4 ∨ bytes.length ≠ 4 + 8 * declared bytes)
    ∧ 8 * declared bytes < UInt64.size
    ∧ ∀ other : List UInt64, words.length < UInt32.size → other.length < UInt32.size →
      (encode words = encode other → words = other)
        ∧ (encode words <+: encode other → encode words = encode other) := by
  refine ⟨fun short => ⟨decode_encode short, ?_⟩, encode_of_decode, refused_iff_not_encoding, ?_,
    ?_, fun other short short' => ⟨fun same => ?_, fun front => ?_⟩⟩
  · rw [length_encode, Nat.mul_comm]
    rfl
  · rw [Nat.mul_comm 8]
    exact refused_iff
  · have bound := declared_lt bytes
    simp only [UInt32.size, UInt64.size] at bound ⊢
    omega
  · exact encode_prefix_free short short' (same ▸ List.prefix_rfl)
  · rw [encode_prefix_free short short' front]

/-- Two words and their message; without its last byte it is refused, as is the message of one
word that declares two. -/
theorem exact_codec_two_words :
    ([1, 2] : List UInt64).length < UInt32.size
      ∧ decode (encode [1, 2]) = .ok [1, 2] ∧ (encode [1, 2]).length = 20
      ∧ (∃ why, decode ((encode [1, 2]).take 19) = .error (.undecodable why))
      ∧ ¬ ∃ coded : List UInt64, coded.length < UInt32.size
        ∧ encode coded = 2 :: (encode [1]).tail := by
  have short : ([1, 2] : List UInt64).length < UInt32.size := by decide
  obtain ⟨round, -, -, cut, -⟩ := exact_codec [1, 2] ((encode [1, 2]).take 19)
  obtain ⟨-, -, never, measured, -⟩ := exact_codec [] (2 :: (encode [1]).tail)
  refine ⟨short, (round short).1, (round short).2, cut.mpr (.inr ?_), ?_⟩
  · decide
  · exact never.mp (measured.mpr (.inr (by decide)))

end PrivateRetrieval.Words
