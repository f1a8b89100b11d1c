import FabricMemory.Adaptation
import FabricMemory.Controller.Resolver

/-!
# Vetting by the controllers of the bus

An export is adapted to the controller that owns its destination. Memory may come in only through
the channel adapter of the controller that owns the source.
-/

namespace FabricMemory.ControllerTree

def adapt (tree : ControllerTree) (region : Descriptor) : Logged (Except Error Adaptation) := do
  if region.deid.isZero then
    Logged.log .error "zero-type eid is not allowed"
    return .error (.invalidArgument .zeroDestination)
  match ← tree.attachment region.deid with
  | .error e => return .error e
  | .ok attachment =>
    match VendorInfo.build attachment.ummuMap with
    | .error e =>
      Logged.log .error ("init_vendor_info failed: " ++ e.message)
      return .error e
    | .ok vendor => return .ok ⟨vendor, attachment.numa⟩

def checkSource (tree : ControllerTree) (seid : Eid) (scna : UInt32) :
    Logged (Except Error Unit) := do
  match ← tree.primaryCna seid with
  | .error e => return .error e
  | .ok cna =>
    if cna = scna then return .ok ()
    Logged.log .error
      ("ctl with eid " ++ seid.text ++ " has scna=" ++ Numeral.hex cna.toNat
        ++ " which is different from scna=" ++ Numeral.hex scna.toNat)
    return .error (.noSuchDevice (.otherAdapter seid cna scna))

def vet {kind : Incoming.Kind} (tree : ControllerTree) (incoming : Incoming kind) :
    Logged (Vetted kind) := do
  return ⟨← tree.checkSource incoming.seid incoming.scna, incoming⟩

theorem verdict_vet {kind : Incoming.Kind} (tree : ControllerTree) (incoming : Incoming kind) :
    (tree.vet incoming).value.verdict = (tree.checkSource incoming.seid incoming.scna).value := by
  rfl

theorem incoming_vet {kind : Incoming.Kind} (tree : ControllerTree) (incoming : Incoming kind) :
    (tree.vet incoming).value.incoming = incoming := by rfl

end FabricMemory.ControllerTree
