import FabricMemory.Attribute

/-!
# Where controllers are

Controller `N` has its attributes in a child of `<root>/ub_bus_controllerN` that holds an entry
named `ubc`. Of several such children the least by bytes counts; hidden ones and names that are not
UTF-8 do not. `locate` gives the path of that child, spelled from the root as it was given.
-/

namespace FabricMemory

structure ControllerTree where
  files : FileSystem
  root : Path

namespace ControllerTree

def directoryName (index : Nat) : String := "ub_bus_controller" ++ Numeral.decimal index

/-- Names the entry that marks a controller's attribute directory. -/
def marker : String := "ubc"

def maxControllers : Nat := 8

def isHidden (name : Name) : Bool := name.head? = some 0x2e

def isSpecial (name : Name) : Bool :=
  name.any fun byte => byte = 0x2a || byte = 0x3f || byte = 0x5b || byte = 0x5d

/-- One name further down. The working directory is not spelled out in front of a name. A name with
special characters is searched for in the listing of its directory, which leaves out hidden ones. -/
def descend (files : FileSystem) (path : Path) (name : Name) : Option Path :=
  let next := if path.bytes = Path.dot then ⟨name⟩ else path.join ⟨name⟩
  let present :=
    if name = Path.dot ∨ name = Path.dotDot then files.isDirectory path
    else if isSpecial name then !isHidden name && (files.entries path).contains name
    else files.hasEntry next
  if present then some next else none

def route (root : Path) (index : Nat) : Path × List Name :=
  let last := [Utf8.encode (directoryName index)]
  match root.bytes with
  | [] => (⟨[Path.slash]⟩, last)
  | byte :: rest =>
    if byte = Path.slash then (⟨[Path.slash]⟩, Path.split rest ++ last)
    else (⟨Path.dot⟩, Path.split (byte :: rest) ++ last)

def directory? (tree : ControllerTree) (index : Nat) : Option Path :=
  let (start, names) := route tree.root index
  names.foldlM (descend tree.files) start

def candidates (files : FileSystem) (directory : Path) : List Name :=
  let marked := (files.entries directory).filter fun name =>
    !isHidden name && (Utf8.decode? name).isSome &&
      files.hasEntry ((directory.join ⟨name⟩).child marker)
  marked.mergeSort fun a b => decide (a ≤ b)

def attributeDirectory? (tree : ControllerTree) (index : Nat) : Option Path := do
  let directory ← tree.directory? index
  let name ← (candidates tree.files directory).head?
  return directory.join ⟨name⟩

def locate (tree : ControllerTree) (index : Nat) : Logged (Except Error Path) := do
  if (Utf8.decode? tree.root.bytes).isNone then
    return .error (.invalidArgument (.rootNotUtf8 tree.root))
  match tree.attributeDirectory? index with
  | none => return .error (.noSuchDevice (.noMarker index))
  | some path =>
    if maxControllerPath ≤ path.bytes.length then
      return .error (.invalidArgument (.longControllerPath path))
    Logged.log .debug ("Controller " ++ Numeral.decimal index ++ ": " ++ path.display)
    return .ok path

end ControllerTree

end FabricMemory
