import FabricMemory.Error

/-!
# Ownership of imported ranges

An importer holds a range of a shared-memory device without access, for reading, or for reading and
writing. The driver is told a memory state: a memory type with an access mode.
-/

namespace FabricMemory

inductive Ownership where
  | none
  | read
  | readWrite
deriving DecidableEq, Repr

namespace MemState

def normal : UInt64 := 0
def normalUncached : UInt64 := 1
def device : UInt64 := 2
def readOnly : UInt64 := 0
def readWrite : UInt64 := 4
def noAccess : UInt64 := 8

/-- Lets the driver choose the cache maintenance. -/
def cacheInfer : UInt8 := 0
def cacheNone : UInt8 := 1

end MemState

namespace Ownership

def text : Ownership → String
  | .none => "none"
  | .read => "read"
  | .readWrite => "rw"

/-- A range without access is mapped uncached. -/
def memState : Ownership → UInt64
  | .none => MemState.normalUncached ||| MemState.noAccess
  | .read => MemState.normal ||| MemState.readOnly
  | .readWrite => MemState.normal ||| MemState.readWrite

def parse (text : String) : Except Error Ownership :=
  if text = "none" then .ok .none
  else if text = "read" ∨ text = "ro" then .ok .read
  else if text = "rw" ∨ text = "write" ∨ text = "readwrite" then .ok .readWrite
  else .error (.invalidArgument (.unknownOwnership text))

/-- Writing implies reading; nothing else may be asked for. -/
def ofProtection (protection : Protection) : Except Error Ownership :=
  if protection = Protection.none then .ok .none
  else if protection = Protection.read then .ok .read
  else if protection = Protection.write ∨ protection = Protection.readWrite then .ok .readWrite
  else .error (.invalidArgument (.unsupportedProtection protection))

def ofProtectionBits (bits : Int32) : Except Error Ownership :=
  if 0 ≤ bits then ofProtection ⟨bits.toUInt32⟩
  else .error (.invalidArgument (.negativeProtection bits.toUInt32))

end Ownership

end FabricMemory
