import FabricMemory.Descriptor
import FabricMemory.Request
import FabricMemory.VendorInfo

/-!
# What the vendor has a say in

For an export the vendor contributes a blob and a NUMA node. A command that brings memory in passes
through the vendor's hands before it is submitted and after it was answered: the vendor judges it,
undoes in the end what the judgement set up, and may change the command both times.
-/

namespace FabricMemory

/-- The vendor's part of an export. -/
structure Adaptation where
  vendor : VendorInfo
  numa : Int32
deriving DecidableEq

inductive Incoming.Kind where
  | region
  | window
deriving DecidableEq

/-- A command that brings memory in. The kind is an index: a vendor does not turn one into the
other. -/
inductive Incoming : Incoming.Kind → Type where
  | region (command : ImportCommand) : Incoming .region
  | window (command : WindowCommand) : Incoming .window
deriving DecidableEq

namespace Incoming

variable {kind : Kind}

def request : Incoming kind → Request
  | .region command => .importRegion command
  | .window command => .declareWindow command

def answered : Incoming kind → Reply → Incoming kind
  | .region command, reply => .region (command.answered reply)
  | .window command, reply => .window (command.answered reply)

def seid : Incoming kind → Eid
  | .region command => command.seid
  | .window command => command.seid

def scna : Incoming kind → UInt32
  | .region command => command.scna
  | .window command => command.scna

end Incoming

/-- What the vendor makes of a command: the verdict, and the command as it is left. -/
structure Vetted (kind : Incoming.Kind) where
  verdict : Except Error Unit
  incoming : Incoming kind

end FabricMemory
