import FabricMemory.Operation.Submission
import FabricMemory.Window

/-!
# Declaring and withdrawing windows

A declaration checks the distance, a withdrawal takes it as it is: the driver knows the window.
-/

namespace FabricMemory.Operation

def windowCommand (window : Window) (flags : WindowFlags) (distance : UInt8)
    (payloadLength : UInt16) : WindowCommand where
  pa := window.pa
  length := window.length
  flags := flags.bits
  numaId := window.numaId
  scna := window.scna
  dcna := window.dcna
  payloadLength := payloadLength
  baseDistance := distance
  deid := window.deid
  seid := window.seid
  payload := Payload.buffer? window.payload

def windowText (window : Window) : String :=
  "pre-import window " ++ Numeral.hex window.pa.toNat ++ "+" ++ Numeral.hex window.length.toNat

def declaredText (window : Window) : String :=
  "Declared " ++ windowText window ++ " on numa " ++ Numeral.decimalInt window.numaId.toInt

/-- The window gets the NUMA node of the command, which is the driver's choice unless the vendor
makes another. -/
def declareWindow (flags : WindowFlags) : InPlace Window Unit := do
  let window ← get
  let distance ← check (Distance.check window.baseDistance)
  connect
  let payloadLength ← check window.payloadLength
  let command := windowCommand window flags distance payloadLength
  let .window command ← submitVetted (.window command)
  let window := { window with numaId := command.numaId }
  set window
  log .info (declaredText window)

def withdrawWindow (window : Window) (flags : WindowFlags) : Operation Unit := do
  connect
  let payloadLength ← check window.payloadLength
  let command := windowCommand window flags (Distance.truncate window.baseDistance) payloadLength
  let _ ← submitPlain (.withdrawWindow command)
  log .info ("Withdrew " ++ windowText window)

end FabricMemory.Operation
