import FabricMemory.Dialogue

/-!
# Submitting commands

The three ways in which a command reaches the driver: with the vendor's part of an export, under the
vendor's judgement, or on its own. Whatever the driver answers, what the vendor set up is given up
before the verdict counts.
-/

namespace FabricMemory.Operation

def submitAdapted (region : Descriptor) (request : Adaptation → Request) : Operation Reply := do
  let adaptation ← adapt region
  let reply ← submit (request adaptation)
  release adaptation.vendor
  check (reply.verdict (request adaptation).name)
  return reply

/-- Submits a command as the vendor leaves it, unless the vendor turns it down, and gives the
answered command as the vendor leaves that. -/
def submitVetted {kind : Incoming.Kind} (incoming : Incoming kind) :
    Operation (Incoming kind) := do
  let accepted ← fixup incoming
  let reply ← submit accepted.request
  let left ← cleanup (accepted.answered reply)
  check (reply.verdict accepted.request.name)
  return left

def submitPlain (request : Request) : Operation Reply := do
  let reply ← submit request
  check (reply.verdict request.name)
  return reply

/-- Memory id 0 stands for no region. -/
def checkMemId (memId : UInt64) : Except Error Unit :=
  if memId = 0 then .error (.invalidArgument .reservedMemId) else .ok ()

end FabricMemory.Operation
