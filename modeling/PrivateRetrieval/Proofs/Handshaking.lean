/-
What a handshake settles.

Of all parameters only the number of words travels, and either party derives the rest from it.  So
a handshake is read in one way, parameters have one handshake, and a client that has read it can
build its hints over the chunks of whoever sent it:

* **`Handshake.decode_eq_ok_iff`** — what bytes are read as, they were written for;
* **`Handshake.accepts_iff`** — eight bytes are read, unless they announce no word at all;
* **`Server.setup_over_chunks`** — a client with the parameters of a server is set up over its
  chunks;
* **`Handshake.settled_by_size`** — all of this, for all parameters, bytes and servers.
-/
import PrivateRetrieval.Proofs.Safety
import PrivateRetrieval.Wire.Handshake

namespace PrivateRetrieval

/-- A server has the parameters that follow from the size it announces. -/
theorem Server.ofSize_dbSize (s : Server) : Params.ofSize s.params.dbSize = .ok s.params := by
  rw [s.dbSize_eq]
  exact s.derived

theorem Params.ofSize_zero : ofSize 0 = .error .emptyDatabase := by
  rw [ofSize, withCapacities, if_pos rfl]

namespace Handshake

variable {hello : Bytes} {p : Params}

/-! ### Bytes and parameters -/

/-- Eight bytes announce some number of words. -/
theorem decode_of_length (length : hello.length = wordWidth) :
    decode hello = Params.ofSize (LittleEndian.decode hello) :=
  if_neg fun differs => differs length

theorem decode_of_length_ne (other : hello.length ≠ wordWidth) :
    decode hello = .error (.undecodable (.handshakeLength hello.length)) :=
  if_pos other

theorem length_of_decode (decoded : decode hello = .ok p) : hello.length = wordWidth := by
  by_cases length : hello.length = wordWidth
  · exact length
  · rw [decode_of_length_ne length] at decoded
    exact absurd decoded (by simp)

/-- The announced number is a word, and the parameters are those that follow from it. -/
theorem ofSize_of_decode (decoded : decode hello = .ok p) :
    hello.length = wordWidth ∧ Params.ofSize p.dbSize = .ok p ∧ p.dbSize < UInt64.size := by
  have length := length_of_decode decoded
  have bound := LittleEndian.decode_lt hello
  rw [decode_of_length length] at decoded
  rw [length, Words.capacity_wordWidth] at bound
  have derived : p.Derived _ := .inl decoded
  rw [derived.dbSize_eq]
  exact ⟨length, decoded, bound⟩

theorem length_encode (p : Params) : (encode p).length = wordWidth :=
  LittleEndian.length_encode wordWidth p.dbSize

theorem decode_encode (derived : Params.ofSize p.dbSize = .ok p) (small : p.dbSize < UInt64.size) :
    decode (encode p) = .ok p := by
  rw [decode_of_length (length_encode p), encode, LittleEndian.decode_encode small, derived]

/-- The bytes that are read as parameters are those that are written for them. -/
theorem encode_of_decode (decoded : decode hello = .ok p) : encode p = hello := by
  have length := length_of_decode decoded
  rw [decode_of_length length] at decoded
  have derived : p.Derived _ := .inl decoded
  rw [encode, derived.dbSize_eq, ← length, LittleEndian.encode_decode]

theorem decode_eq_ok_iff : decode hello = .ok p
    ↔ encode p = hello ∧ Params.ofSize p.dbSize = .ok p ∧ p.dbSize < UInt64.size := by
  constructor
  · exact fun decoded => ⟨encode_of_decode decoded, (ofSize_of_decode decoded).2⟩
  · rintro ⟨rfl, derived, small⟩
    exact decode_encode derived small

/-! ### Bytes that are refused -/

theorem decode_zeros : decode (List.replicate wordWidth 0) = .error .emptyDatabase := by
  rw [← LittleEndian.encode_zero, decode_of_length (LittleEndian.length_encode ..),
    LittleEndian.decode_encode (by decide), Params.ofSize_zero]

theorem accepts_iff : (∃ p, decode hello = .ok p)
    ↔ hello.length = wordWidth ∧ hello ≠ List.replicate wordWidth 0 := by
  constructor
  · rintro ⟨p, decoded⟩
    refine ⟨length_of_decode decoded, ?_⟩
    rintro rfl
    exact absurd (decode_zeros.symm.trans decoded) (by simp)
  · rintro ⟨length, nonzero⟩
    rw [decode_of_length length]
    refine Params.ofSize_ok (Nat.pos_of_ne_zero fun zero => nonzero ?_)
    -- Bytes that spell zero are those of zero.
    have bytes := LittleEndian.encode_decode hello
    rwa [zero, length, LittleEndian.encode_zero, eq_comm] at bytes

end Handshake

/-! ### Server and client -/

variable {σ K : Type} [Prf K] [KeySource σ K]

/-- A client with the parameters of a server is set up over its chunks, and no step of it is
undefined. -/
theorem Server.setup_over_chunks {s : Server} (small : s.params.dbSize < UInt64.size)
    (source : σ) :
    (Client.setup (K := K) s.params source s.chunks).outcome = .ok ()
      ∧ Checked.setup (K := K) s.params source s.chunks
        = Client.setup s.params source s.chunks := by
  have counted := Params.backupCount_lt_of_ofSize s.ofSize_dbSize small
  refine ⟨?_, (Checked.setup_eq s.valid small counted source s.chunks).1⟩
  have valid : ({ params := s.params, source } : Client σ K).params.Valid := s.valid
  exact Client.rebuild_ok valid s.length_chunks fun _ => s.length_of_mem_chunks

/-- **A size settles everything.**  Parameters come back from their handshake as they were, and
bytes that are read as parameters are their handshake; of the others, those of a wrong number are
told from those that announce an empty database.  Whoever reads the handshake of a server has its
parameters, and is set up over its chunks. -/
theorem Handshake.settled_by_size :
    (∀ {size p}, size < UInt64.size → Params.ofSize size = .ok p →
      Handshake.decode (Handshake.encode p) = .ok p)
    ∧ (∀ {hello p}, Handshake.decode hello = .ok p →
      Handshake.encode p = hello ∧ Params.ofSize p.dbSize = .ok p)
    ∧ (∀ hello : Bytes, hello.length ≠ 8 →
      Handshake.decode hello = .error (.undecodable (.handshakeLength hello.length)))
    ∧ Handshake.decode (List.replicate 8 0) = .error .emptyDatabase
    ∧ (∀ hello : Bytes, (∃ p, Handshake.decode hello = .ok p)
      ↔ hello.length = 8 ∧ hello ≠ List.replicate 8 0)
    ∧ ∀ {s : Server} {p}, s.words.size < UInt64.size →
      Handshake.decode (Handshake.encode s.params) = .ok p →
        p = s.params
        ∧ ∀ source : σ, (Client.setup (K := K) p source s.chunks).outcome = .ok ()
          ∧ Checked.setup (K := K) p source s.chunks = Client.setup p source s.chunks := by
  refine ⟨fun {size p} small derived => ?_, fun {hello p} decoded => ?_,
    fun hello => Handshake.decode_of_length_ne, Handshake.decode_zeros,
    fun hello => Handshake.accepts_iff, fun {s p} small decoded => ?_⟩
  · have same : p.dbSize = size := Params.Derived.dbSize_eq (.inl derived)
    subst same
    exact Handshake.decode_encode derived small
  · exact ⟨Handshake.encode_of_decode decoded, (Handshake.ofSize_of_decode decoded).2.1⟩
  · rw [← s.dbSize_eq] at small
    obtain rfl : s.params = p :=
      Except.ok.inj ((Handshake.decode_encode s.ofSize_dbSize small).symm.trans decoded)
    exact ⟨rfl, Server.setup_over_chunks small⟩

/-- The handshake of four words, one byte less of it, and the client that has read it. -/
theorem Handshake.settled_by_size_of_four_words :
    4 < UInt64.size ∧ Params.ofSize 4 = .ok Small.server.params
    ∧ Handshake.encode Small.server.params = [4, 0, 0, 0, 0, 0, 0, 0]
    ∧ Handshake.decode [4, 0, 0, 0, 0, 0, 0, 0] = .ok Small.server.params
    ∧ Handshake.decode [4, 0, 0, 0, 0, 0, 0] = .error (.undecodable (.handshakeLength 7))
    ∧ (∃ p, Handshake.decode [0, 0, 0, 0, 0, 0, 0, 1] = .ok p)
    ∧ (Client.setup (K := LiteralKey) Small.server.params Small.source
      Small.server.chunks).outcome = .ok () := by
  have small : 4 < UInt64.size := by decide
  obtain ⟨round, -, refused, -, accepted, settled⟩ :=
    Handshake.settled_by_size (σ := Scripted Keystream) (K := LiteralKey)
  have four : Handshake.encode Small.server.params = [4, 0, 0, 0, 0, 0, 0, 0] := by decide
  have read := round small Small.ofSize_four
  refine ⟨small, Small.ofSize_four, four, four ▸ read, refused _ (by decide),
    (accepted _).mpr (by decide), ?_⟩
  exact ((settled (s := Small.server) small read).2 Small.source).1

end PrivateRetrieval
