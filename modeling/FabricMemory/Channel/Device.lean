import FabricMemory.FileSystem.Access
import FabricMemory.Log
import FabricMemory.Request

/-!
# The control device

The device is opened for reading and writing. Requests to it are logged by name and number, and so
is a refusal.
-/

namespace FabricMemory

structure Driver (δ : Type) where
  submit : Request → δ → Reply × δ
  update : RangeUpdate → δ → Option IoError × δ

/-- An ordinary file in place of a device takes no request. -/
def Driver.absent (δ : Type) : Driver δ where
  submit _ state := ({ refusal := some (.system Errno.notDevice) }, state)
  update _ state := (some (.system Errno.notDevice), state)

namespace ControlDevice

def openAt (files : FileSystem) (path : Path) : Logged (Except Error Unit) := do
  Logged.log .debug ("Opening control device " ++ path.display)
  match files.openReadWrite path with
  | .error source => return .error (.deviceOpen path source)
  | .ok () =>
    Logged.log .info ("Opened control device " ++ path.display)
    return .ok ()

variable {δ : Type}

def submit (driver : Driver δ) (request : Request) (state : δ) : Logged (Reply × δ) := do
  Logged.log .debug ("Submitting " ++ request.name ++ " (" ++ Numeral.hex request.number ++ ")")
  let (reply, state) := driver.submit request state
  match reply.refusal with
  | none => return (reply, state)
  | some source =>
    Logged.log .error (request.name ++ " rejected by driver: " ++ source.message)
    return (reply, state)

end ControlDevice

end FabricMemory
