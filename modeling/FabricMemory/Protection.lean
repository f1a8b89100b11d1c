import FabricMemory.Text.Numeral

/-!
# Memory protections

The protection of a mapping is a set of bits; the first three have names.
-/

namespace FabricMemory

structure Protection where
  bits : UInt32
deriving DecidableEq

namespace Protection

def none : Protection := ⟨0⟩
def read : Protection := ⟨1⟩
def write : Protection := ⟨2⟩
def readWrite : Protection := ⟨3⟩

/-- The named bits that are set, then all other bits as one number. -/
def text (protection : Protection) : String :=
  let named := [(1, "READ"), (2, "WRITE"), (4, "EXEC")].filterMap fun (bit, name) =>
    if protection.bits &&& bit = bit then some name else Option.none
  let rest := protection.bits &&& ~~~7
  let parts := named ++ if rest = 0 then [] else [Numeral.hex rest.toNat]
  " | ".intercalate parts

end Protection

end FabricMemory
