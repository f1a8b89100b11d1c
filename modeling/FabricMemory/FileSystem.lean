import FabricMemory.IoError
import FabricMemory.Path

/-!
# File systems as values

A file system maps places, the names on the way from the root, to files, directories and symbolic
links. `resolve` follows a path name by name: through links, at most forty of them, and up again
through `..`. Everything that reads or writes goes through it, and says by an `Intent` what it is
after.
-/

namespace FabricMemory

abbrev Place := List Name

inductive Node where
  | file (content : Bytes)
  | directory
  | link (target : Path)
deriving DecidableEq

structure FileSystem where
  nodes : List (Place × Node) := []
  workingDirectory : Place := []

/-- Where a path leads: to a node, or to a free name in a directory. -/
inductive Target where
  | occupied (place : Place) (node : Node)
  | vacant (place : Place)
deriving DecidableEq

namespace FileSystem

def node? (files : FileSystem) (place : Place) : Option Node :=
  if place = [] then some .directory else files.nodes.lookup place

def set (files : FileSystem) (place : Place) (node : Node) : FileSystem :=
  { files with nodes := (place, node) :: files.nodes.filter (·.1 ≠ place) }

def unset (files : FileSystem) (place : Place) : FileSystem :=
  { files with nodes := files.nodes.filter fun entry => !place.isPrefixOf entry.1 }

@[simp] theorem node?_root (files : FileSystem) : files.node? [] = some .directory := rfl

theorem node?_set {files : FileSystem} {place other : Place} {node : Node} (h : other ≠ []) :
    (files.set place node).node? other =
      if other = place then some node else files.node? other := by
  unfold node? set
  simp only [if_neg h, List.lookup_cons]
  by_cases ho : other = place
  · simp [ho]
  · have hb : (other == place) = false := by simpa using ho
    simp only [hb, if_neg ho]
    induction files.nodes with
    | nil => rfl
    | cons entry rest ih =>
      obtain ⟨key, value⟩ := entry
      by_cases hk : key = place
      · subst hk
        simpa [List.lookup_cons, hb] using ih
      · simp only [List.filter_cons, ne_eq, hk, not_false_eq_true, decide_true, if_true,
          List.lookup_cons, ih]

/-- Names of the entries of a directory, in no particular order. -/
def children (files : FileSystem) (place : Place) : List Name :=
  files.nodes.filterMap fun (key, _) =>
    if key.dropLast = place then key.getLast? else none

-- ---------------------------------------------------------------------
-- Resolution

def maxName : Nat := 255

def maxPath : Nat := 4096

def maxLinks : Nat := 40

inductive Intent where
  /-- The entry at its end, which may be a link. -/
  | entry
  /-- What it leads to. -/
  | target
  /-- A file that is made where there is none. -/
  | newFile
deriving DecidableEq

/-- The names a path goes through. A slash at the end shows as an empty name, which asks for a
directory as a lone dot does. -/
def steps (path : Path) : List Name :=
  let names := (Path.split path.bytes).filter (· ≠ [])
  if path.bytes.getLast? = some Path.slash then names ++ [[]] else names

/-- Follows names from a directory. The last one may be missing; as a link it is followed unless the
entry is meant. A new file is never looked for under a name with a slash behind it, be it the end of
the path or of a link on the way. -/
def walk (files : FileSystem) (intent : Intent) (links : Nat) (place : Place) :
    List Name → Except IoError Target
  | [] => .ok (.occupied place .directory)
  | name :: rest =>
    if name = [] ∨ name = Path.dot then walk files intent links place rest
    else if name = Path.dotDot then walk files intent links place.dropLast rest
    else if intent = .newFile ∧ rest = [[]] then .error (.system Errno.isDirectory)
    else if name.length > maxName then .error (.system Errno.nameTooLong)
    else
      match files.node? (place ++ [name]) with
      | none =>
        if rest = [] then .ok (.vacant (place ++ [name])) else .error (.system Errno.noEntry)
      | some .directory => walk files intent links (place ++ [name]) rest
      | some (.file content) =>
        if rest = [] then .ok (.occupied (place ++ [name]) (.file content))
        else .error (.system Errno.notDirectory)
      | some (.link target) =>
        if rest = [] ∧ intent = .entry then .ok (.occupied (place ++ [name]) (.link target))
        else
          match links with
          | 0 => .error (.system Errno.tooManyLinks)
          | links + 1 =>
            if target.bytes = [] then .error (.system Errno.noEntry)
            else
              walk files intent links (if target.isAbsolute then [] else place)
                (steps target ++ rest)
termination_by names => (links, names.length)

def resolve (files : FileSystem) (path : Path) (intent : Intent := .target) :
    Except IoError Target :=
  if path.bytes = [] then .error (.system Errno.noEntry)
  else if 0 ∈ path.bytes then .error .nulInPath
  else if path.bytes.length ≥ maxPath then .error (.system Errno.nameTooLong)
  else
    let start := if path.isAbsolute then [] else files.workingDirectory
    walk files intent maxLinks start (steps path)

def find (files : FileSystem) (path : Path) (intent : Intent := .target) :
    Except IoError (Place × Node) := do
  match ← files.resolve path intent with
  | .occupied place node => return (place, node)
  | .vacant _ => throw (.system Errno.noEntry)

-- ---------------------------------------------------------------------
-- Questions

def isDirectory (files : FileSystem) (path : Path) : Bool :=
  match files.find path with
  | .ok (_, .directory) => true
  | _ => false

/-- Whether there is an entry of any kind, a link to nowhere included. -/
def hasEntry (files : FileSystem) (path : Path) : Bool :=
  (files.find path .entry).isOk

def entries (files : FileSystem) (path : Path) : List Name :=
  match files.find path with
  | .ok (place, .directory) => files.children place
  | _ => []

end FileSystem

end FabricMemory
