import FabricMemory.Operation.Submission

/-!
# Asking for addresses

The driver translates between physical addresses and offsets in regions.
-/

namespace FabricMemory.Operation

def regionAt (pa : UInt64) : Operation (UInt64 × UInt64) := do
  connect
  let command : QueryCommand := { keyType := QueryCommand.byAddress, pa := pa }
  let reply ← submitPlain (.query command)
  let command := command.answered reply
  return (command.memId, command.offset)

def addressOf (memId offset : UInt64) : Operation UInt64 := do
  connect
  let command : QueryCommand :=
    { keyType := QueryCommand.byOffset, memId := memId, offset := offset }
  let reply ← submitPlain (.query command)
  return (command.answered reply).pa

end FabricMemory.Operation
