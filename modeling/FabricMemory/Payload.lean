import FabricMemory.Error
import FabricMemory.Flags

/-!
# Private payloads and distances

What a region carries for its importer is a byte string that the driver gets by address and 16-bit
length. The distance of a region reaches the driver as one byte.
-/

namespace FabricMemory

namespace Payload

/-- The length as the driver sees it; it is never cut off. -/
def length (payload : Bytes) : Except Error UInt16 :=
  if payload.length ≤ maxPayload then .ok (UInt16.ofNat payload.length)
  else .error (.invalidArgument (.payloadTooLong payload.length))

/-- What the driver finds behind the address; an empty payload has none. -/
def buffer? (payload : Bytes) : Option Bytes := if payload = [] then none else some payload

theorem toNat_of_length {payload : Bytes} {n : UInt16} (h : length payload = .ok n) :
    n.toNat = payload.length := by
  unfold length at h
  split at h
  · rename_i hl
    obtain rfl := Except.ok.inj h
    exact UInt16.toNat_ofNat_of_lt' (Nat.lt_succ_of_le hl)
  · simp at h

theorem buffer?_eq_none_iff {payload : Bytes} : buffer? payload = none ↔ payload = [] := by
  simp [buffer?]

def ofFlags (flags : PayloadFlags) : Bytes := LittleEndian.encode 2 flags.bits.toNat

/-- The flags that a payload of two bytes holds, unless an unknown one is among them. -/
def flags? (payload : Bytes) : Option PayloadFlags :=
  if payload.length = 2 ∧ FlagFamily.payload.knows (LittleEndian.decode payload) then
    some ⟨UInt16.ofNat (LittleEndian.decode payload)⟩
  else none

end Payload

namespace Distance

/-- The low byte of a distance that the driver does not look at. -/
def truncate (value : Int32) : UInt8 := UInt8.ofNat (value.toInt % 256).toNat

def check (value : Int32) : Except Error UInt8 :=
  if 0 ≤ value.toInt ∧ value.toInt < 256 then .ok (truncate value)
  else .error (.invalidArgument (.baseDistance value))

theorem toNat_truncate (value : Int32) : (truncate value).toNat = value.toInt % 256 := by
  have hlow := Int.emod_nonneg value.toInt (by decide : (256 : Int) ≠ 0)
  have hhigh := Int.emod_lt_of_pos value.toInt (by decide : (0 : Int) < 256)
  rw [truncate, UInt8.toNat_ofNat_of_lt' (by show _ < 256; omega)]
  omega

theorem toNat_of_check {value : Int32} {byte : UInt8} (h : check value = .ok byte) :
    byte.toNat = value.toInt := by
  unfold check at h
  split at h
  · rename_i hr
    obtain rfl := Except.ok.inj h
    rw [toNat_truncate, Int.emod_eq_of_lt hr.1 hr.2]
  · simp at h

end Distance

end FabricMemory
