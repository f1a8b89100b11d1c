import FabricMemory.Word

/-!
# Byte strings and little-endian words

`LittleEndian.encode` writes the low bytes of a number, least byte first, and `LittleEndian.decode`
reads any byte string back. Main statements: `decode_encode` (the value modulo the width) and
`encode_decode` (every byte string is the encoding of its value).
-/

namespace FabricMemory

abbrev Bytes := List UInt8

namespace LittleEndian

def encode : (width : Nat) → (value : Nat) → Bytes
  | 0, _ => []
  | width + 1, value => UInt8.ofNat value :: encode width (value / 256)

def decode : Bytes → Nat
  | [] => 0
  | byte :: rest => byte.toNat + 256 * decode rest

@[simp] theorem length_encode (width value : Nat) : (encode width value).length = width := by
  induction width generalizing value with
  | zero => rfl
  | succ width ih => simp [encode, ih]

theorem wordBound_bytes (count : Nat) :
    wordBound (8 * (count + 1)) = 256 * wordBound (8 * count) := by
  rw [Nat.mul_add, Nat.add_comm, wordBound_add]
  rfl

theorem decode_encode (width value : Nat) :
    decode (encode width value) = value % wordBound (8 * width) := by
  induction width generalizing value with
  | zero => simp [encode, decode, wordBound, Nat.mod_one]
  | succ width ih =>
    simp only [encode, decode, ih, UInt8.toNat_ofNat', wordBound_bytes, Nat.mod_mul]

theorem encode_decode (bytes : Bytes) : encode bytes.length (decode bytes) = bytes := by
  induction bytes with
  | nil => rfl
  | cons byte rest ih =>
    have hb := byte.toNat_lt
    have hd : (byte.toNat + 256 * decode rest) / 256 = decode rest := by omega
    have hm : UInt8.ofNat (byte.toNat + 256 * decode rest) = byte := by
      apply UInt8.toNat_inj.mp
      rw [UInt8.toNat_ofNat']
      omega
    simp [encode, decode, hd, hm, ih]

theorem decode_lt (bytes : Bytes) : decode bytes < wordBound (8 * bytes.length) := by
  induction bytes with
  | nil => simp [decode, wordBound]
  | cons byte rest ih =>
    have hb := byte.toNat_lt
    simp only [decode, List.length_cons, wordBound_bytes]
    omega

theorem encode_mod (width value : Nat) :
    encode width (value % wordBound (8 * width)) = encode width value := by
  have h := encode_decode (encode width value)
  rwa [length_encode, decode_encode] at h

end LittleEndian

end FabricMemory
