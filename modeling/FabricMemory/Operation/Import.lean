import FabricMemory.Operation.Submission

/-!
# Importing memory

A region that another node exported is mapped from its descriptor.
-/

namespace FabricMemory.Operation

/-- Stands for no preference of a NUMA node. -/
def noNode : Int32 := -1

structure Imported where
  memId : UInt64
  numaId : Int32
deriving DecidableEq

/-- The distance is checked only where the driver looks at it. -/
def importDistance (flags : ImportFlags) (distance : Int32) : Except Error UInt8 :=
  if flags.checksDistance then Distance.check distance else .ok (Distance.truncate distance)

def importCommand (region : Descriptor) (flags : ImportFlags) (distance : UInt8)
    (numaHint : Option Int32) (payloadLength : UInt16) : ImportCommand where
  flags := flags.bits
  addr := region.addr
  length := region.length
  tokenid := region.tokenid
  scna := region.scna
  dcna := region.dcna
  numaId := numaHint.getD noNode
  payloadLength := payloadLength
  baseDistance := distance
  deid := region.deid
  seid := region.seid
  payload := Payload.buffer? region.payload

def importedText (region : Descriptor) (imported : Imported) : String :=
  "Imported mem_id " ++ Numeral.decimal imported.memId.toNat ++ " ("
    ++ Numeral.decimal region.length.toNat ++ " bytes from " ++ region.seid.text ++ ") on numa "
    ++ Numeral.decimalInt imported.numaId.toInt

def importRegion (region : Descriptor) (flags : ImportFlags) (distance : Int32)
    (numaHint : Option Int32) : Operation Imported := do
  let distance ← check (importDistance flags distance)
  let payloadLength ← check region.payloadLength
  let command := importCommand region flags distance numaHint payloadLength
  connect
  let .region command ← submitVetted (.region command)
  let imported : Imported := ⟨command.memId, command.numaId⟩
  log .info (importedText region imported)
  return imported

def endImport (memId : UInt64) (flags : UnimportFlags) : Operation Unit := do
  check (checkMemId memId)
  connect
  let _ ← submitPlain (.endImport ⟨memId, flags.bits⟩)
  log .info ("Unimported mem_id " ++ Numeral.decimal memId.toNat)

end FabricMemory.Operation
