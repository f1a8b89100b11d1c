import FabricMemory.Controller.Tree

/-!
# Which controller serves an endpoint

The indices are searched from below. One without a controller is passed over, one whose identifier
cannot be read ends the search. The `eid` attribute holds the low 32 bits of an identifier whose
other bits are zero.
-/

namespace FabricMemory

structure Controller where
  index : Nat
  path : Path
deriving DecidableEq

/-- Where a controller is attached: its index in the UMMU and its NUMA node. -/
structure Attachment where
  ummuMap : UInt32
  numa : Int32
deriving DecidableEq

namespace ControllerTree

def eidAttribute : String := "eid"
def ummuAttribute : String := "ummu_map"
def numaAttribute : String := "numa"
def cnaAttribute : String := "primary_cna"

/-- The identifier whose low 32 bits an attribute holds. -/
def eidOfAttribute (raw : Int32) : Eid := Eid.ofNat raw.toUInt32.toNat

def nonNegative? (value : Int32) : Option UInt32 := if 0 ≤ value then some value.toUInt32 else none

/-- An attribute that a controller has to have; `accept` may turn its value down. -/
def require {α : Type} (tree : ControllerTree) (path : Path) (name : String)
    (accept : Int32 → Option α) : Logged (Except Error α) := do
  match (← Attribute.read tree.files (path.child name)).toOption.bind accept with
  | some value => return .ok value
  | none =>
    Logged.log .error ("failed to read ctl " ++ name ++ ", path " ++ path.display)
    return .error (.noSuchDevice (.unreadable name path))

def search (tree : ControllerTree) (eid : Eid) : List Nat → Logged (Except Error Controller)
  | [] => do
    Logged.log .error ("failed to find ctl, eid: " ++ eid.text)
    return .error (.noSuchDevice (.noOwner eid))
  | index :: rest => do
    match ← tree.locate index with
    | .error _ => search tree eid rest
    | .ok path =>
      match ← tree.require path eidAttribute (some ∘ eidOfAttribute) with
      | .error e => return .error e
      | .ok own =>
        if own = eid then
          Logged.log .debug ("EID " ++ eid.text ++ " owned by controller " ++ Numeral.decimal index)
          return .ok ⟨index, path⟩
        else search tree eid rest

def find (tree : ControllerTree) (eid : Eid) : Logged (Except Error Controller) :=
  tree.search eid (List.range maxControllers)

def attachment (tree : ControllerTree) (eid : Eid) : Logged (Except Error Attachment) := do
  match ← tree.find eid with
  | .error e => return .error e
  | .ok controller =>
    match ← tree.require controller.path ummuAttribute nonNegative? with
    | .error e => return .error e
    | .ok ummuMap =>
      match ← tree.require controller.path numaAttribute (Option.guard (0 ≤ ·)) with
      | .error e => return .error e
      | .ok numa => return .ok ⟨ummuMap, numa⟩

def primaryCna (tree : ControllerTree) (eid : Eid) : Logged (Except Error UInt32) := do
  match ← tree.find eid with
  | .error e => return .error e
  | .ok controller => tree.require controller.path cnaAttribute nonNegative?

end ControllerTree

end FabricMemory
