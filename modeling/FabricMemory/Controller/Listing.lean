import FabricMemory.Controller.Resolver

/-!
# Listing controllers

Every controller with the attributes that can be read. Attributes are read in the order identifier,
UMMU index, NUMA node, channel adapter, and each one that cannot be read leaves a warning.
-/

namespace FabricMemory

structure ControllerInfo where
  index : Nat
  path : Path
  eid? : Option Eid
  ummuMap? : Option Int32
  numa? : Option Int32
  primaryCna? : Option UInt32
deriving DecidableEq

namespace ControllerTree

def attribute? (tree : ControllerTree) (index : Nat) (path : Path) (name : String) :
    Logged (Option Int32) := do
  match ← Attribute.read tree.files (path.child name) with
  | .ok value => return some value
  | .error e =>
    Logged.log .warn ("Controller " ++ Numeral.decimal index ++ ": " ++ e.message)
    return none

def describe (tree : ControllerTree) (index : Nat) : Logged (Option ControllerInfo) := do
  match ← tree.locate index with
  | .error _ => return none
  | .ok path =>
    let eid ← tree.attribute? index path eidAttribute
    let ummuMap ← tree.attribute? index path ummuAttribute
    let numa ← tree.attribute? index path numaAttribute
    let cna ← tree.attribute? index path cnaAttribute
    return some ⟨index, path, eid.map eidOfAttribute, ummuMap, numa, cna.bind nonNegative?⟩

def describeAll (tree : ControllerTree) : List Nat → Logged (List ControllerInfo)
  | [] => return []
  | index :: rest => do
    let info ← tree.describe index
    return info.toList ++ (← describeAll tree rest)

def controllers (tree : ControllerTree) : Logged (List ControllerInfo) :=
  tree.describeAll (List.range maxControllers)

end ControllerTree

end FabricMemory
