/-
Streams of frames.

A stream is cut at its front, one frame after the other, until what is left is no whole
frame: it ends inside a length or inside a body.  Every stream is cut in one way, and what was
written in frames is read as it was written, whatever follows:

* **`Frame.read_eq`** — what is read at the front, told by lengths alone
  (`Frame.read_encode_append`, `Frame.encode_of_read`);
* **`Frame.Splits`** — the bodies of a stream and what is left behind them
  (`Frame.exists_splits`, `Frame.Splits.unique`);
* **`Frame.Splits.eq_append`**, **`Frame.splits_of_short`** — a stream that is cut is one of
  whole frames and the rest, and back.
-/
import PrivateRetrieval.Proofs.WordCodec
import PrivateRetrieval.Wire.Frame

namespace PrivateRetrieval.Frame

/-- The length that the front of a stream announces. -/
def announced (stream : Bytes) : Nat := LittleEndian.decode (stream.take lengthWidth)

/-- No whole frame stands at the front. -/
def Unfinished (stream : Bytes) : Prop :=
  stream.length < lengthWidth ∨ stream.length < lengthWidth + announced stream

/-- The bodies of the frames of a stream, and what is left behind them. -/
inductive Splits : (stream : Bytes) → (bodies : List Bytes) → (rest : Bytes) → Prop where
  | rest {rest : Bytes} (unfinished : Unfinished rest) : Splits rest [] rest
  | frame {body stream rest : Bytes} {bodies : List Bytes} (short : body.length < UInt32.size)
    (later : Splits stream bodies rest) : Splits (encode body ++ stream) (body :: bodies) rest

variable {stream body rest : Bytes} {bodies : List Bytes}

/-! ### One frame -/

theorem announced_lt (stream : Bytes) : announced stream < UInt32.size :=
  Words.declared_lt stream

theorem length_encode (body : Bytes) : (encode body).length = lengthWidth + body.length := by
  rw [encode, List.length_append, LittleEndian.length_encode]

theorem announced_encode (short : body.length < UInt32.size) (rest : Bytes) :
    announced (encode body ++ rest) = body.length := by
  have front : (LittleEndian.encode lengthWidth body.length).length = lengthWidth :=
    LittleEndian.length_encode lengthWidth body.length
  rw [announced, encode, List.append_assoc, List.take_left' front]
  exact LittleEndian.decode_encode short

theorem read_eq (stream : Bytes) : read stream
    = if stream.length < lengthWidth then .noLength
      else if stream.length < lengthWidth + announced stream then .cutBody
      else .message ((stream.drop lengthWidth).take (announced stream))
        ((stream.drop lengthWidth).drop (announced stream)) := by
  have front : (stream.take lengthWidth).length < lengthWidth ↔ stream.length < lengthWidth := by
    rw [List.length_take]
    omega
  unfold read
  dsimp only
  rw [← announced]
  by_cases lengthless : stream.length < lengthWidth
  · rw [if_pos (front.mpr lengthless), if_pos lengthless]
  rw [if_neg fun short => lengthless (front.mp short), if_neg lengthless]
  have body : ((stream.drop lengthWidth).take (announced stream)).length < announced stream
      ↔ stream.length < lengthWidth + announced stream := by
    rw [List.length_take, List.length_drop]
    omega
  by_cases cut : stream.length < lengthWidth + announced stream
  · rw [if_pos cut, if_pos (body.mpr cut)]
  · rw [if_neg cut, if_neg fun short => cut (body.mp short)]

theorem read_of_unfinished (unfinished : Unfinished stream) :
    read stream = if stream.length < lengthWidth then .noLength else .cutBody := by
  rw [read_eq]
  by_cases lengthless : stream.length < lengthWidth
  · rw [if_pos lengthless, if_pos lengthless]
  · rw [if_neg lengthless, if_neg lengthless, if_pos (unfinished.resolve_left lengthless)]

/-- What is written in a frame is read from it, and what follows is left. -/
theorem read_encode_append (short : body.length < UInt32.size) (rest : Bytes) :
    read (encode body ++ rest) = .message body rest := by
  have front : (LittleEndian.encode lengthWidth body.length).length = lengthWidth :=
    LittleEndian.length_encode lengthWidth body.length
  have dropped : (encode body ++ rest).drop lengthWidth = body ++ rest := by
    rw [encode, List.append_assoc, List.drop_left' front]
  have whole : lengthWidth + body.length ≤ (encode body ++ rest).length := by
    rw [List.length_append, length_encode]
    exact Nat.le_add_right _ _
  rw [read_eq, announced_encode short, if_neg (by omega), if_neg (by omega), dropped,
    List.take_left, List.drop_left]

/-- Nothing else is read as a frame. -/
theorem encode_of_read (h : read stream = .message body rest) :
    body.length < UInt32.size ∧ stream = encode body ++ rest := by
  rw [read_eq] at h
  by_cases lengthless : stream.length < lengthWidth
  · rw [if_pos lengthless] at h
    exact absurd h (by simp)
  by_cases cut : stream.length < lengthWidth + announced stream
  · rw [if_neg lengthless, if_pos cut] at h
    exact absurd h (by simp)
  rw [if_neg lengthless, if_neg cut] at h
  obtain ⟨rfl, rfl⟩ := Reading.message.inj h
  have count : ((stream.drop lengthWidth).take (announced stream)).length = announced stream :=
    List.length_take_of_le (by rw [List.length_drop]; omega)
  refine ⟨count.symm ▸ announced_lt stream, ?_⟩
  -- The four bytes in front are those of the length that they announce.
  have digits := LittleEndian.encode_decode (stream.take lengthWidth)
  rw [List.length_take_of_le (Nat.le_of_not_lt lengthless)] at digits
  rw [encode, count, announced, digits, List.append_assoc, List.take_append_drop,
    List.take_append_drop]

theorem not_unfinished_encode (short : body.length < UInt32.size) (rest : Bytes) :
    ¬ Unfinished (encode body ++ rest) := by
  rw [Unfinished, announced_encode short, List.length_append, length_encode]
  omega

theorem unfinished_of_read (never : ∀ body rest, read stream ≠ .message body rest) :
    Unfinished stream := by
  rw [read_eq] at never
  by_cases lengthless : stream.length < lengthWidth
  · exact .inl lengthless
  by_cases cut : stream.length < lengthWidth + announced stream
  · exact .inr cut
  · rw [if_neg lengthless, if_neg cut] at never
    exact absurd rfl (never _ _)

theorem unfinished_nil : Unfinished [] := .inl (by decide)

/-! ### Whole streams -/

theorem exists_splits (stream : Bytes) : ∃ bodies rest, Splits stream bodies rest := by
  cases front : read stream with
  | noLength => exact ⟨[], stream, .rest (unfinished_of_read (by simp [front]))⟩
  | cutBody => exact ⟨[], stream, .rest (unfinished_of_read (by simp [front]))⟩
  | message body next =>
    obtain ⟨bodies, rest, later⟩ := exists_splits next
    obtain ⟨short, rfl⟩ := encode_of_read front
    exact ⟨body :: bodies, rest, .frame short later⟩
termination_by stream.length
decreasing_by exact length_rest_lt front

namespace Splits

theorem unique (splits : Splits stream bodies rest) : ∀ {bodies' : List Bytes} {rest' : Bytes},
    Splits stream bodies' rest' → bodies' = bodies ∧ rest' = rest := by
  induction splits with
  | rest unfinished =>
    intro bodies' rest' other
    cases other with
    | rest _ => exact ⟨rfl, rfl⟩
    | frame short later => exact absurd unfinished (not_unfinished_encode short _)
  | @frame body stream rest bodies short later ih =>
    intro bodies' rest' other
    generalize whole : encode body ++ stream = front at other
    cases other with
    | rest unfinished => exact absurd (whole ▸ unfinished) (not_unfinished_encode short _)
    | @frame body' stream' _ _ short' later' =>
      -- The frame that is read at the front is the one that stands there.
      have same := read_encode_append short stream
      rw [whole, read_encode_append short'] at same
      obtain ⟨rfl, rfl⟩ := Reading.message.inj same
      obtain ⟨rfl, rfl⟩ := ih later'
      exact ⟨rfl, rfl⟩

theorem eq_append (splits : Splits stream bodies rest) :
    stream = bodies.flatMap encode ++ rest := by
  induction splits with
  | rest unfinished => rfl
  | frame short later ih => rw [ih, List.flatMap_cons, List.append_assoc]

theorem unfinished (splits : Splits stream bodies rest) : Unfinished rest := by
  induction splits with
  | rest unfinished => exact unfinished
  | frame short later ih => exact ih

/-- Every frame takes up its length at least. -/
theorem length_le (splits : Splits stream bodies rest) :
    lengthWidth * bodies.length + rest.length ≤ stream.length := by
  induction splits with
  | rest unfinished => simp
  | frame short later ih =>
    rw [List.length_append, length_encode, List.length_cons, Nat.mul_succ]
    omega

end Splits

/-- Frames that were written one after another are read so. -/
theorem splits_of_short (short : ∀ body ∈ bodies, body.length < UInt32.size)
    (unfinished : Unfinished rest) : Splits (bodies.flatMap encode ++ rest) bodies rest := by
  induction bodies with
  | nil => exact .rest unfinished
  | cons body bodies ih =>
    rw [List.flatMap_cons, List.append_assoc]
    exact .frame (short body List.mem_cons_self)
      (ih fun other member => short other (List.mem_cons_of_mem body member))

end PrivateRetrieval.Frame
