import FabricMemory.Bytes
import FabricMemory.Text.Numeral

/-!
# Endpoint identifiers

An endpoint identifier is a 128-bit number. It is stored least byte first and written as its two
64-bit halves in hexadecimal, the high one first. Zero is reserved.
-/

namespace FabricMemory

structure Eid where
  value : BitVec 128
deriving DecidableEq

namespace Eid

def size : Nat := 16

def ofNat (n : Nat) : Eid := ⟨BitVec.ofNat 128 n⟩

def toNat (eid : Eid) : Nat := eid.value.toNat

def zero : Eid := ofNat 0

instance : Inhabited Eid := ⟨zero⟩

def isZero (eid : Eid) : Bool := eid = zero

def bytes (eid : Eid) : Bytes := LittleEndian.encode size eid.toNat

def ofBytes (bytes : Bytes) : Eid := ofNat (LittleEndian.decode bytes)

def high (eid : Eid) : Nat := eid.toNat / wordBound 64

def low (eid : Eid) : Nat := eid.toNat % wordBound 64

def ofHalves (high low : Nat) : Eid := ofNat (high * wordBound 64 + low)

def text (eid : Eid) : String := Numeral.hex eid.high ++ ":" ++ Numeral.hex eid.low

theorem toNat_lt (eid : Eid) : eid.toNat < wordBound 128 := eid.value.isLt

theorem toNat_ofNat (n : Nat) : (ofNat n).toNat = n % wordBound 128 := BitVec.toNat_ofNat ..

theorem ofNat_toNat (eid : Eid) : ofNat eid.toNat = eid := by simp [ofNat, toNat]

@[simp] theorem length_bytes (eid : Eid) : eid.bytes.length = size := LittleEndian.length_encode ..

theorem ofBytes_bytes (eid : Eid) : ofBytes eid.bytes = eid := by
  have h : eid.toNat % wordBound (8 * size) = eid.toNat := Nat.mod_eq_of_lt eid.toNat_lt
  rw [ofBytes, bytes, LittleEndian.decode_encode, h, ofNat_toNat]

theorem bytes_ofBytes {bytes : Bytes} (h : bytes.length = size) :
    (ofBytes bytes).bytes = bytes := by
  have hl := LittleEndian.decode_lt bytes
  rw [h] at hl
  have hm : LittleEndian.decode bytes % wordBound 128 = LittleEndian.decode bytes :=
    Nat.mod_eq_of_lt hl
  rw [Eid.bytes, ofBytes, toNat_ofNat, hm, ← h, LittleEndian.encode_decode]

end Eid

end FabricMemory
