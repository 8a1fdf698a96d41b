/-
Frames: messages cut out of a byte stream.

A frame is its length in four little-endian bytes and then that many bytes.
`Frame.read` takes the first frame off a stream and tells a stream that ends
between or inside a length (`noLength`) from one that ends inside a body
(`cutBody`).
-/
import PrivateRetrieval.Wire.LittleEndian

namespace PrivateRetrieval.Frame

/-- Bytes of the length in front of a frame. -/
def lengthWidth : Nat := 4

/-- A message behind its length. -/
def encode (message : Bytes) : Bytes :=
  LittleEndian.encode lengthWidth message.length ++ message

/-- What stands at the front of a stream. -/
inductive Reading where
  | message (body rest : Bytes)
  | noLength
  /-- Fewer bytes than the length announces. -/
  | cutBody
deriving DecidableEq

/-- What the first bytes of a stream are, by the length that they announce. -/
def read (stream : Bytes) : Reading :=
  let front := stream.take lengthWidth
  let length := LittleEndian.decode front
  let body := (stream.drop lengthWidth).take length
  if front.length < lengthWidth then .noLength
  else if body.length < length then .cutBody
  else .message body ((stream.drop lengthWidth).drop length)

/-- The stream after a frame is shorter: the length itself is gone. -/
theorem length_rest_lt {stream body rest : Bytes} (h : read stream = .message body rest) :
    rest.length < stream.length := by
  simp only [read] at h
  by_cases short : (stream.take lengthWidth).length < lengthWidth
  · simp only [if_pos short, reduceCtorEq] at h
  rw [if_neg short] at h
  by_cases cut : ((stream.drop lengthWidth).take
      (LittleEndian.decode (stream.take lengthWidth))).length
        < LittleEndian.decode (stream.take lengthWidth)
  · simp only [if_pos cut, reduceCtorEq] at h
  · rw [if_neg cut, Reading.message.injEq] at h
    rw [← h.2]
    simp only [List.length_take, List.length_drop, lengthWidth] at short ⊢
    omega

end PrivateRetrieval.Frame
