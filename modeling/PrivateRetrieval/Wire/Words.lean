/-
Lists of words on the wire.

Chunks, queries and answers all travel in one form: the number of words in four
bytes, then eight bytes for each word, all little-endian.  `Words.decode`
accepts no other bytes and says which of the two lengths is wrong.
-/
import PrivateRetrieval.Wire.LittleEndian
import PrivateRetrieval.Error

namespace PrivateRetrieval.Words

/-- The bytes of a word. -/
def encodeWord (word : UInt64) : Bytes :=
  LittleEndian.encode wordWidth word.toNat

/-- Words behind their count. -/
def encode (words : List UInt64) : Bytes :=
  LittleEndian.encode prefixWidth words.length ++ words.flatMap encodeWord

/-- The words in the bytes behind a count. -/
def decodeBody : (count : Nat) → Bytes → List UInt64
  | 0, _ => []
  | count + 1, bytes =>
    UInt64.ofNat (LittleEndian.decode (bytes.take wordWidth))
      :: decodeBody count (bytes.drop wordWidth)

/-- The words that `bytes` encode, if the bytes after the count are exactly as
many as it declares. -/
def decode (bytes : Bytes) : Except Error (List UInt64) :=
  if bytes.length < prefixWidth then .error (.undecodable (.shortPrefix bytes.length))
  else
    let declared := LittleEndian.decode (bytes.take prefixWidth)
    let body := bytes.drop prefixWidth
    if body.length ≠ declared * wordWidth then
      .error (.undecodable (.lengthMismatch declared body.length))
    else .ok (decodeBody declared body)

end PrivateRetrieval.Words
