import FabricMemory.Dialogue
import FabricMemory.Ownership

/-!
# Changing the ownership of a range

The update goes to the shared-memory device of the region, past the control channel.
-/

namespace FabricMemory.Operation

def rangeUpdate (first last : UInt64) (ownership : Ownership) : RangeUpdate where
  first := first
  last := last
  memState := ownership.memState
  cacheOps := MemState.cacheInfer

def rangeText (first last : UInt64) : String :=
  Numeral.hex first.toNat ++ ".." ++ Numeral.hex last.toNat

def setOwnership (first last : UInt64) (ownership : Ownership) : Operation Unit := do
  let range := rangeUpdate first last ownership
  log .debug
    ("Updating range " ++ rangeText first last ++ " to " ++ ownership.text ++ " (mem_state "
      ++ Numeral.hex range.memState.toNat ++ ")")
  match ← update range with
  | none => return
  | some source =>
    log .error ("failed to set ownership of " ++ rangeText first last ++ ": " ++ source.message)
    throw (.driver RangeUpdate.requestName source)

end FabricMemory.Operation
