/-
Numbers as little-endian bytes.

* **`LittleEndian.encode`** — the `width` bytes of a number, lowest first, higher
  digits dropped;
* **`LittleEndian.decode`** — the number that bytes spell, however many they are.

Below `LittleEndian.capacity width` each is the other's inverse:
**`decode_encode`**, **`encode_decode`**, **`decode_lt`**.
-/

namespace PrivateRetrieval

/-- What travels between a client and a server. -/
abbrev Bytes := List UInt8

/-- Bytes of a word. -/
def wordWidth : Nat := 8

/-- Bytes of the count in front of a list of words. -/
def prefixWidth : Nat := 4

namespace LittleEndian

/-- The lowest `width` bytes of `n`, lowest first. -/
def encode : (width n : Nat) → Bytes
  | 0, _ => []
  | width + 1, n => UInt8.ofNat (n % 256) :: encode width (n / 256)

/-- The number whose bytes these are, lowest first. -/
def decode : Bytes → Nat
  | [] => 0
  | b :: rest => b.toNat + 256 * decode rest

/-- How many numbers `width` bytes can spell. -/
def capacity : (width : Nat) → Nat
  | 0 => 1
  | width + 1 => 256 * capacity width

@[simp] theorem length_encode (width n : Nat) : (encode width n).length = width := by
  induction width generalizing n with
  | zero => rfl
  | succ width ih => simp [encode, ih]

theorem encode_zero (width : Nat) : encode width 0 = List.replicate width 0 := by
  induction width with
  | zero => rfl
  | succ width ih =>
    rw [encode, Nat.zero_div, ih, List.replicate_succ]
    rfl

theorem decode_encode {width n : Nat} (fits : n < capacity width) :
    decode (encode width n) = n := by
  induction width generalizing n with
  | zero =>
    have zero : n = 0 := Nat.lt_one_iff.mp fits
    simp [encode, decode, zero]
  | succ width ih =>
    have low : (UInt8.ofNat (n % 256)).toNat = n % 256 := by simp
    rw [encode, decode, low, ih (by rw [capacity] at fits; omega)]
    omega

theorem encode_decode (bytes : Bytes) : encode bytes.length (decode bytes) = bytes := by
  induction bytes with
  | nil => rfl
  | cons b rest ih =>
    have bound : b.toNat < 256 := b.toNat_lt
    have low : (b.toNat + 256 * decode rest) % 256 = b.toNat := by omega
    have high : (b.toNat + 256 * decode rest) / 256 = decode rest := by omega
    rw [List.length_cons, decode, encode, low, high, ih, UInt8.ofNat_toNat]

theorem decode_lt (bytes : Bytes) : decode bytes < capacity bytes.length := by
  induction bytes with
  | nil => exact Nat.zero_lt_one
  | cons b rest ih =>
    have bound : b.toNat < 256 := b.toNat_lt
    rw [decode, List.length_cons, capacity]
    omega

/-- The first bytes of a list spell no more than as many bytes can, if there are so many or not. -/
theorem decode_take_lt (width : Nat) (bytes : Bytes) :
    decode (bytes.take width) < capacity width := by
  induction width generalizing bytes with
  | zero => exact Nat.zero_lt_one
  | succ width ih =>
    cases bytes with
    | nil =>
      have below : 0 < capacity width := Nat.lt_of_le_of_lt (Nat.zero_le _) (ih [])
      rw [List.take_nil, decode, capacity]
      omega
    | cons b rest =>
      have bound : b.toNat < 256 := b.toNat_lt
      have below := ih rest
      rw [List.take_succ_cons, decode, capacity]
      omega

end LittleEndian

end PrivateRetrieval
