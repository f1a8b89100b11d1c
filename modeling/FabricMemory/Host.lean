import FabricMemory.Channel.Device
import FabricMemory.Controller.Adaptor
import FabricMemory.Peers

/-!
# The host an operation runs on

On a host the vendor's judgements come from the controllers in its file system, which need nothing
undone. The channel is any `Backend`; on a real host it is the control device.
-/

namespace FabricMemory

structure Host (δ : Type) where
  files : FileSystem
  driver : δ

/-- How the channel of a host is opened, and what stands behind it. Neither touches the files. -/
structure Backend (δ : Type) where
  openChannel : FileSystem → δ → Logged (Except Error Unit × δ)
  submit : Request → δ → Logged (Reply × δ)
  update : RangeUpdate → δ → Option IoError × δ

def Backend.device {δ : Type} (device : Path) (driver : Driver δ) : Backend δ where
  openChannel files state := do return (← ControlDevice.openAt files device, state)
  submit := ControlDevice.submit driver
  update := driver.update

namespace Host

variable {δ : Type}

def tree (host : Host δ) (root : Path) : ControllerTree := ⟨host.files, root⟩

def peersWith (root : Path) (backend : Backend δ) : Peers (Host δ) where
  openChannel host := do
    let (opened, state) ← backend.openChannel host.files host.driver
    return (opened, { host with driver := state })
  adapt region host := do return (← (host.tree root).adapt region, host)
  fixup incoming host := do return (← (host.tree root).vet incoming, host)
  cleanup incoming host := return (incoming, host)
  submit request host := do
    let (reply, state) ← backend.submit request host.driver
    return (reply, { host with driver := state })
  update range host :=
    let (refusal, state) := backend.update range host.driver
    (refusal, { host with driver := state })

def peers (root device : Path) (driver : Driver δ) : Peers (Host δ) :=
  peersWith root (.device device driver)

end Host

end FabricMemory
