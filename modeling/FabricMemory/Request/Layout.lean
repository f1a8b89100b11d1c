import FabricMemory.Word

/-!
# Sizes of structures and request numbers

A command is handed over by address as a structure of words, each placed at a multiple of its own
width. The number of a request tells the driver the size of the structure along with the request.
-/

namespace FabricMemory

/-- `count` words of `width` bytes each. -/
structure Member where
  width : Nat
  count : Nat := 1
deriving DecidableEq, Repr

namespace Layout

def roundUp (offset width : Nat) : Nat := (offset + width - 1) / width * width

def place (offset : Nat) (member : Member) : Nat :=
  roundUp offset member.width + member.width * member.count

/-- Padded to the width of the widest member, so that structures can follow one another. -/
def size (members : List Member) : Nat :=
  roundUp (members.foldl place 0) (members.foldl (fun width member => max width member.width) 1)

def byte : Member := ⟨1, 1⟩
def half : Member := ⟨2, 1⟩
def word : Member := ⟨4, 1⟩
def long : Member := ⟨8, 1⟩
def bytes (count : Nat) : Member := ⟨1, count⟩
def longs (count : Nat) : Member := ⟨8, count⟩

end Layout

/-- A request that reads and writes a structure of `size` bytes: from the top two bits of direction,
fourteen of size, eight of type and eight that count the requests of the type. -/
def requestNumber (type ordinal : UInt8) (size : Nat) : Nat :=
  3 * wordBound 30 + size % wordBound 14 * wordBound 16 + type.toNat * wordBound 8 + ordinal.toNat

def controlType : UInt8 := 0x78

def rangeType : UInt8 := 0x58

end FabricMemory
