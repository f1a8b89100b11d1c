import FabricMemory.CommandLine.Grammar
import FabricMemory.Config

/-!
# The command line

Nine commands, each with a grammar of its own. The options for paths are known before the command
and after it; one given after it counts.
-/

namespace FabricMemory.CommandLine

inductive Command where
  | controllers
  | resolve (eid : Eid)
  | exportPages (deid : Eid) (seid : Option Eid) (sizes : List UInt64) (flags : ExportFlags)
  | endExport (memId : UInt64) (flags : UnexportFlags)
  | importRegion (memId : UInt64) (scna dcna : Option UInt32) (numaHint : Option Int32)
      (distance : Int32) (flags : ImportFlags)
  | endImport (memId : UInt64) (flags : UnimportFlags)
  | addressOf (memId offset : UInt64)
  | regionAt (pa : UInt64)
  | setOwnership (device : Path) (first last : UInt64) (ownership : Ownership)
deriving DecidableEq

structure PathOptions where
  sysfsRoot : Option Path := none
  device : Option Path := none
  descriptors : Option Path := none
deriving DecidableEq

namespace PathOptions

def rules : List OptionRule :=
  [.once "sysfs-root" .path, .once "device" .path, .once "desc-dir" .path]

def ofGiven (given : Given) : PathOptions :=
  ⟨given.value? Value.path? "sysfs-root", given.value? Value.path? "device",
    given.value? Value.path? "desc-dir"⟩

def or (later before : PathOptions) : PathOptions :=
  ⟨later.sysfsRoot.or before.sysfsRoot, later.device.or before.device,
    later.descriptors.or before.descriptors⟩

def apply (options : PathOptions) (config : Config) : Config :=
  ⟨options.sysfsRoot.getD config.sysfsRoot, options.device.getD config.device,
    options.descriptors.getD config.descriptors⟩

end PathOptions

structure Invocation where
  paths : PathOptions
  command : Command
deriving DecidableEq

-- ---------------------------------------------------------------------
-- Commands

/-- A command's grammar, apart from the path options, and how it is made of what was given; `none`
where something it needs is missing. -/
structure CommandRule where
  name : String
  options : List OptionRule := []
  flags : List String := []
  operands : List Kind := []
  build : Given → Option Command

namespace CommandRule

def grammar (rule : CommandRule) : Grammar where
  options := PathOptions.rules ++ rule.options
  flags := rule.flags
  operands := rule.operands

def controllers : CommandRule where
  name := "controllers"
  build _ := some .controllers

def resolve : CommandRule where
  name := "resolve"
  operands := [.eid]
  build given :=
    match given.operands with
    | [.eid eid] => some (.resolve eid)
    | _ => none

def exportPages : CommandRule where
  name := "export"
  options := [.once "eid" .eid, .once "seid" .eid, .many "size" .long]
  flags := ["allow-mmap", "remote-numa"]
  build given :=
    match given.value? Value.eid? "eid", given.values Value.long? "size" with
    | some deid, size :: sizes =>
      some (.exportPages deid (given.value? Value.eid? "seid") (size :: sizes)
        (given.flagsOf _ [("allow-mmap", "ALLOW_MMAP"), ("remote-numa", "REMOTE_NUMA")]))
    | _, _ => none

def endExport : CommandRule where
  name := "unexport"
  flags := ["force"]
  operands := [.long]
  build given :=
    match given.operands with
    | [.long memId] => some (.endExport memId (given.flagsOf _ [("force", "FORCE")]))
    | _ => none

def importRegion : CommandRule where
  name := "import"
  options := [.once "scna" .word, .once "dcna" .word, .once "numa" .integer,
    .once "base-dist" .integer]
  flags := ["numa-remote", "preimport", "allow-mmap"]
  operands := [.long]
  build given :=
    match given.operands with
    | [.long memId] =>
      some (.importRegion memId (given.value? Value.word? "scna") (given.value? Value.word? "dcna")
        (given.value? Value.integer? "numa")
        ((given.value? Value.integer? "base-dist").getD 0)
        (given.flagsOf _ [("numa-remote", "NUMA_REMOTE"), ("preimport", "PREIMPORT"),
          ("allow-mmap", "ALLOW_MMAP")]))
    | _ => none

def endImport : CommandRule where
  name := "unimport"
  flags := ["force"]
  operands := [.long]
  build given :=
    match given.operands with
    | [.long memId] => some (.endImport memId (given.flagsOf _ [("force", "FORCE")]))
    | _ => none

def addressOf : CommandRule where
  name := "query-pa"
  operands := [.long, .long]
  build given :=
    match given.operands with
    | [.long memId] => some (.addressOf memId 0)
    | [.long memId, .long offset] => some (.addressOf memId offset)
    | _ => none

def regionAt : CommandRule where
  name := "query-memid"
  operands := [.long]
  build given :=
    match given.operands with
    | [.long pa] => some (.regionAt pa)
    | _ => none

def setOwnership : CommandRule where
  name := "ownership"
  operands := [.path, .long, .long, .ownership]
  build given :=
    match given.operands with
    | [.path device, .long first, .long last, .ownership ownership] =>
      some (.setOwnership device first last ownership)
    | _ => none

def all : List CommandRule :=
  [controllers, resolve, exportPages, endExport, importRegion, endImport, addressOf, regionAt,
    setOwnership]

def named? (name : String) : Option CommandRule := all.find? (·.name = name)

def read (rule : CommandRule) (before : PathOptions) (arguments : List String) :
    Except Stop Invocation := do
  let given ← rule.grammar.read {} arguments
  match given.rest, rule.build given with
  | [], some command => return ⟨(PathOptions.ofGiven given).or before, command⟩
  | _, _ => throw .usage

end CommandRule

-- ---------------------------------------------------------------------
-- Invocations

def outerGrammar : Grammar where
  options := PathOptions.rules
  version := true

def helpStop : List String → Stop
  | [] | ["help"] => .help
  | [name] => if (CommandRule.named? name).isSome then .help else .usage
  | _ => .usage

def Invocation.parse (arguments : List String) : Except Stop Invocation := do
  let given ← outerGrammar.read {} arguments
  match given.rest with
  | [] => throw .usage
  | name :: rest =>
    if name = "help" then throw (helpStop rest)
    match CommandRule.named? name with
    | none => throw .usage
    | some rule => rule.read (PathOptions.ofGiven given) rest

end FabricMemory.CommandLine
