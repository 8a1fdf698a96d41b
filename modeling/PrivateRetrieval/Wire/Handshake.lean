/-
The handshake that tells a client which database it talks to.

Only the number of words travels, in eight little-endian bytes; the receiver
derives every other parameter from it.
-/
import PrivateRetrieval.Wire.LittleEndian
import PrivateRetrieval.Params

namespace PrivateRetrieval.Handshake

/-- The number of words, in eight bytes. -/
def encode (p : Params) : Bytes :=
  LittleEndian.encode wordWidth p.dbSize

/-- The parameters of the announced number of words. -/
def decode (bytes : Bytes) : Except Error Params :=
  if bytes.length ≠ wordWidth then .error (.undecodable (.handshakeLength bytes.length))
  else Params.ofSize (LittleEndian.decode bytes)

end PrivateRetrieval.Handshake
