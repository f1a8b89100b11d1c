import FabricMemory.CommandLine.Run

/-!
# The tool

Takes a picture of the files that a command line may look at, runs the command line on the picture
and prints what it has to say. Devices are not reached from here: each answers as an ordinary file
does.
-/

namespace FabricMemory.Picture

def placeOf (workingDirectory path : String) : List String :=
  let whole := if path.startsWith "/" then path else workingDirectory ++ "/" ++ path
  (whole.splitOn "/").foldl (fun names name =>
    if name = "" ∨ name = "." then names
    else if name = ".." then names.dropLast
    else names ++ [name]) []

def nodeAt? (path : String) : IO (Option Node) := do
  let target := (← IO.currentDir) / path
  if ← target.isDir then return some .directory
  if !(← target.pathExists) then return none
  match (← target.metadata).type with
  | .file => return some (.file (← IO.FS.readBinFile target).toList)
  | _ => return some (.file [])

def namesIn (path : String) : IO (List String) := do
  let target := (← IO.currentDir) / path
  return (← target.readDir).toList.map (·.fileName)

def encoded (names : List String) : Place := names.map Utf8.encode

/-- Adds what is at a path, and for a directory what it holds down to a depth. An entry that leads
nowhere is kept as a link. -/
def add (path : String) (place : List String) (files : FileSystem) : Nat → IO FileSystem
  | 0 => do
    match ← nodeAt? path with
    | some node => return files.set (encoded place) node
    | none => return files
  | depth + 1 => do
    match ← nodeAt? path with
    | some .directory =>
      let mut files := files.set (encoded place) .directory
      for name in ← namesIn path do
        let below := path ++ "/" ++ name
        if (← nodeAt? below).isNone then
          files := files.set (encoded (place ++ [name])) (.link ⟨[]⟩)
        else files ← add below (place ++ [name]) files depth
      return files
    | some node => return files.set (encoded place) node
    | none => return files

def addWithParents (files : FileSystem) (path : String) (depth : Nat) : IO FileSystem := do
  let place := placeOf (← IO.currentDir).toString path
  let above := (List.range place.length).tail.map place.take
  let files := above.foldl (fun files names => files.set (encoded names) .directory) files
  add path place files depth

def paths (config : Config) (command : CommandLine.Command) : List (String × Nat) :=
  let controllers := (List.range ControllerTree.maxControllers).map fun index =>
    ((config.sysfsRoot.child (ControllerTree.directoryName index)).display, 2)
  let own :=
    match command with
    | .setOwnership device .. => [(device.display, 0)]
    | _ => []
  controllers ++ [(config.device.display, 0), (config.descriptors.display, 1)] ++ own

def take (environment : Environment) (arguments : List String) : IO FileSystem := do
  let workingDirectory := placeOf "" (← IO.currentDir).toString
  let empty : FileSystem := { workingDirectory := encoded workingDirectory }
  let above := (List.range (workingDirectory.length + 1)).tail.map workingDirectory.take
  let base := above.foldl (fun files names => files.set (encoded names) .directory) empty
  match CommandLine.Invocation.parse arguments with
  | .error _ => return base
  | .ok invocation =>
    (paths (invocation.config environment) invocation.command).foldlM
      (fun files (path, depth) => addWithParents files path depth) base

end FabricMemory.Picture

def environmentVariables : IO FabricMemory.Environment :=
  ["OBMM_SYSFS_ROOT", "OBMM_DEV_PATH", "OBMM_DESC_DIR"].filterMapM fun name => do
    return (← IO.getEnv name).map fun value => (name, FabricMemory.Utf8.encode value)

def main (arguments : List String) : IO UInt32 := do
  let environment ← environmentVariables
  let files ← FabricMemory.Picture.take environment arguments
  let ran := FabricMemory.CommandLine.run environment (FabricMemory.Driver.absent Unit) ⟨files, ()⟩
    arguments
  IO.print ran.output
  IO.eprint ran.errors
  return UInt32.ofNat ran.code
