import FabricMemory.Descriptor
import FabricMemory.FileSystem.Access
import FabricMemory.Log

/-!
# The descriptor directory

Each descriptor is kept in a file of its own, named for the memory id of the region. Saving makes
the directory where it is missing and replaces what was saved before under the same id.
-/

namespace FabricMemory.Descriptor

def filePath (directory : Path) (memId : UInt64) : Path :=
  directory.child ("memdesc_" ++ Numeral.decimal memId.toNat ++ ".json")

/-- The path of the file written; directories made before a failure stay. -/
def save (region : Descriptor) (files : FileSystem) (directory : Path) (memId : UInt64) :
    Logged (Except Error Path × FileSystem) := do
  match files.makeDirectories directory with
  | (.error source, files) => return (.error (.io source), files)
  | (.ok (), files) =>
    let path := filePath directory memId
    match files.writeText path region.record.pretty with
    | .error source => return (.error (.io source), files)
    | .ok files =>
      Logged.log .debug
        ("Saved descriptor for mem_id " ++ Numeral.decimal memId.toNat ++ " to " ++ path.display)
      return (.ok path, files)

def load (files : FileSystem) (directory : Path) (memId : UInt64) : Except Error Descriptor :=
  match files.readText (filePath directory memId) with
  | .error source => .error (.io source)
  | .ok text => ofJson text

end FabricMemory.Descriptor
