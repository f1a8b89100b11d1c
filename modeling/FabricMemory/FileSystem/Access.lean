import FabricMemory.FileSystem

/-!
# Reading and writing files

Opening and reading are two steps, because a directory can be opened and only then fails to be read.
-/

namespace FabricMemory

inductive OpenFile where
  | file (content : Bytes)
  | directory
deriving DecidableEq

def OpenFile.read : OpenFile → Except IoError Bytes
  | .file content => .ok content
  | .directory => .error (.system Errno.isDirectory)

namespace FileSystem

def openRead (files : FileSystem) (path : Path) : Except IoError OpenFile := do
  match ← files.find path with
  | (_, .file content) => return .file content
  | (_, .directory) => return .directory
  | (_, .link _) => throw (.system Errno.tooManyLinks)

/-- Opening for reading and writing, which a directory refuses. -/
def openReadWrite (files : FileSystem) (path : Path) : Except IoError Unit := do
  match ← files.openRead path with
  | .file _ => return ()
  | .directory => throw (.system Errno.isDirectory)

def readFile (files : FileSystem) (path : Path) : Except IoError Bytes := do
  (← files.openRead path).read

def readText (files : FileSystem) (path : Path) : Except IoError String := do
  match Utf8.decode? (← files.readFile path) with
  | some text => return text
  | none => throw .notUtf8

/-- Replaces the content of a file, or makes the file; through a link to a free name it is made
there. -/
def writeFile (files : FileSystem) (path : Path) (content : Bytes) : Except IoError FileSystem := do
  match ← files.resolve path .newFile with
  | .occupied place (.file _) => return files.set place (.file content)
  | .occupied _ _ => throw (.system Errno.isDirectory)
  | .vacant place => return files.set place (.file content)

def writeText (files : FileSystem) (path : Path) (text : String) : Except IoError FileSystem :=
  files.writeFile path (Utf8.encode text)

-- ---------------------------------------------------------------------
-- Directories

def withoutSlashes (path : Path) : Path :=
  match path.bytes.reverse.dropWhile (· = Path.slash) with
  | [] => path
  | kept => ⟨kept.reverse⟩

def makeDirectory (files : FileSystem) (path : Path) : Except IoError FileSystem := do
  match ← files.resolve (withoutSlashes path) .entry with
  | .occupied _ _ => throw (.system Errno.exists_)
  | .vacant place => return files.set place .directory

/-- Makes a directory with all the directories above it that are missing. Those made before one that
cannot be made stay. -/
def makeDirectories (files : FileSystem) (path : Path) : Except IoError Unit × FileSystem :=
  match _h : path.parent? with
  | none => (.ok (), files)
  | some above =>
    match files.makeDirectory path with
    | .ok made => (.ok (), made)
    | .error e =>
      if e = .system Errno.noEntry then
        match makeDirectories files above with
        | (.error e, made) => (.error e, made)
        | (.ok (), made) =>
          match made.makeDirectory path with
          | .ok made => (.ok (), made)
          | .error e => (if made.isDirectory path then .ok () else .error e, made)
      else (if files.isDirectory path then .ok () else .error e, files)
termination_by path.bytes.length
decreasing_by exact Path.length_parent?_lt ‹_›

-- ---------------------------------------------------------------------
-- Edits from outside

/-- Puts a node at a path in place of whatever is there, making the directories above it. -/
def put (files : FileSystem) (path : Path) (node : Node) : Except IoError FileSystem := do
  let (made, files) := files.makeDirectories (path.parent?.getD ⟨[]⟩)
  made
  match ← files.resolve path .entry with
  | .occupied place _ => return (files.unset place).set place node
  | .vacant place => return files.set place node

def remove (files : FileSystem) (path : Path) : Except IoError FileSystem := do
  return files.unset (← files.find path .entry).1

end FileSystem

end FabricMemory
