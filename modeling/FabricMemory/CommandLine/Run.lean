import FabricMemory.CommandLine.Arguments
import FabricMemory.CommandLine.Report
import FabricMemory.Descriptor.Store
import FabricMemory.Host
import FabricMemory.Operation.Export
import FabricMemory.Operation.Import
import FabricMemory.Operation.Query
import FabricMemory.Operation.Range

/-!
# Running a command line

A command is a `Script`: it prints line by line as it goes, and stops at the first failure with what
it has printed until then. Log lines are not shown.
-/

namespace FabricMemory.CommandLine

variable {δ : Type}

-- ---------------------------------------------------------------------
-- Scripts

structure Progress (δ : Type) where
  link : Link (Host δ)
  events : List Event := []
  output : String := ""

namespace Progress

def start (host : Host δ) : Progress δ := { link := ⟨{}, host⟩ }

@[simp] theorem link_start (host : Host δ) : (start host).link = ⟨{}, host⟩ := rfl

@[simp] theorem events_start (host : Host δ) : (start host).events = [] := rfl

@[simp] theorem output_start (host : Host δ) : (start host).output = "" := rfl

def printed (progress : Progress δ) (lines : List String) : Progress δ :=
  { progress with output := progress.output ++ Report.lines lines }

@[simp] theorem events_printed (progress : Progress δ) (lines : List String) :
    (progress.printed lines).events = progress.events := rfl

@[simp] theorem output_printed (progress : Progress δ) (lines : List String) :
    (progress.printed lines).output = progress.output ++ Report.lines lines := rfl

def withFiles (progress : Progress δ) (files : FileSystem) : Progress δ :=
  { progress with
    link := { progress.link with world := { progress.link.world with files := files } } }

end Progress

abbrev Script (δ α : Type) := ExceptT Failure (StateM (Progress δ)) α

namespace Script

variable {α : Type}

def on (script : Script δ α) (progress : Progress δ) : Except Failure α × Progress δ :=
  StateT.run (ExceptT.run script) progress

def print (line : String) : Script δ Unit := modify (·.printed [line])

def printAll (lines : List String) : Script δ Unit := lines.forM print

def attempt (context : String) (result : Except Error α) : Script δ α :=
  match result with
  | .ok value => return value
  | .error e => throw (.ofError context e)

def host : Script δ (Host δ) := return (← get).link.world

/-- Runs an operation over the channel that the command holds. -/
def perform (config : Config) (driver : Driver δ) (operation : Operation α) (context : String) :
    Script δ α := do
  let progress ← get
  let ran :=
    (operation.run (Host.peers config.sysfsRoot config.device driver) progress.link).value
  set { progress with link := ran.link, events := progress.events ++ ran.events }
  attempt context ran.value

def printing (config : Config) (driver : Driver δ) (operation : Operation α) (context : String)
    (lines : α → List String) : Script δ Unit := do
  let value ← perform config driver operation context
  printAll (lines value)

/-- What of a descriptor's way to its file has been done stays done when the rest fails. -/
def store (config : Config) (memId : UInt64) (region : Descriptor) : Script δ Path := do
  let progress ← get
  let (saved, files) :=
    (region.save progress.link.world.files config.descriptors memId).value
  set (progress.withFiles files)
  attempt "store descriptor" saved

end Script

-- ---------------------------------------------------------------------
-- Commands

open Script

def showControllers (found : List ControllerInfo) : Script δ Unit := do
  print ("UB bus controllers: " ++ Numeral.decimal found.length)
  print ""
  found.forM fun info => printAll (Report.controllerLines info)

def runControllers (config : Config) : Script δ Unit := do
  showControllers ((← host).tree config.sysfsRoot).controllers.value

def showOwner (tree : ControllerTree) (eid : Eid) (owner : Controller) : Script δ Unit := do
  print ("EID          : " ++ eid.text)
  print ("Controller   : " ++ Numeral.decimal owner.index ++ " (" ++ owner.path.display ++ ")")
  printAll (Report.attachmentLines (tree.attachment eid).value)
  print ("Primary CNA  : " ++ Report.adapterText (tree.primaryCna eid).value)

def runResolve (config : Config) (eid : Eid) : Script δ Unit := do
  let tree := (← host).tree config.sysfsRoot
  let owner ← attempt ("resolve " ++ eid.text) (tree.find eid).value
  showOwner tree eid owner

/-- The driver has accepted the export by the time its descriptor is stored. -/
def storeExported (config : Config) (memId : UInt64) (region : Descriptor) : Script δ Unit := do
  let path ← store config memId region
  printAll (Report.exportedLines memId region path)

def runExport (config : Config) (driver : Driver δ) (deid : Eid) (seid : Option Eid)
    (sizes : List UInt64) (flags : ExportFlags) : Script δ Unit := do
  let region : Descriptor := { deid := deid, seid := seid.getD Eid.zero }
  let (memId, region) ← perform config driver
    ((Operation.exportPages sizes flags).returning region) ("export to " ++ deid.text)
  storeExported config memId region

def importLoaded (config : Config) (driver : Driver δ) (memId : UInt64) (region : Descriptor)
    (numaHint : Option Int32) (distance : Int32) (flags : ImportFlags) : Script δ Unit :=
  printing config driver (Operation.importRegion region flags distance numaHint)
    ("import " ++ Numeral.decimal memId.toNat ++ " from " ++ region.seid.text) fun imported =>
      ["mem_id : " ++ Numeral.decimal imported.memId.toNat,
       "numa   : " ++ Numeral.decimalInt imported.numaId.toInt]

def runImport (config : Config) (driver : Driver δ) (memId : UInt64) (scna dcna : Option UInt32)
    (numaHint : Option Int32) (distance : Int32) (flags : ImportFlags) : Script δ Unit := do
  let path := Descriptor.filePath config.descriptors memId
  let region ← attempt ("load " ++ path.display)
    (Descriptor.load (← host).files config.descriptors memId)
  let region := { region with scna := scna.getD region.scna, dcna := dcna.getD region.dcna }
  importLoaded config driver memId region numaHint distance flags

def changeOwnership (config : Config) (driver : Driver δ) (device : Path) (first last : UInt64)
    (ownership : Ownership) : Script δ Unit :=
  let range := Operation.rangeText first last
  printing config driver (Operation.setOwnership first last ownership)
    ("set " ++ range ++ " to " ++ ownership.text) fun () =>
      [device.display ++ " " ++ range ++ ": " ++ ownership.text]

def runOwnership (config : Config) (driver : Driver δ) (device : Path) (first last : UInt64)
    (ownership : Ownership) : Script δ Unit := do
  match (← host).files.openReadWrite device with
  | .error source => throw ⟨"open " ++ device.display, [source.message]⟩
  | .ok () => changeOwnership config driver device first last ownership

def Command.run (config : Config) (driver : Driver δ) : Command → Script δ Unit
  | .controllers => runControllers config
  | .resolve eid => runResolve config eid
  | .exportPages deid seid sizes flags => runExport config driver deid seid sizes flags
  | .endExport memId flags =>
    let shown := Numeral.decimal memId.toNat
    printing config driver (Operation.endExport memId flags) ("unexport " ++ shown) fun () =>
      ["Unexported " ++ shown]
  | .importRegion memId scna dcna numaHint distance flags =>
    runImport config driver memId scna dcna numaHint distance flags
  | .endImport memId flags =>
    let shown := Numeral.decimal memId.toNat
    printing config driver (Operation.endImport memId flags) ("unimport " ++ shown) fun () =>
      ["Unimported " ++ shown]
  | .addressOf memId offset =>
    printing config driver (Operation.addressOf memId offset)
      ("query pa of " ++ Numeral.decimal memId.toNat ++ "+" ++ Numeral.hex offset.toNat) fun pa =>
        [Numeral.hex pa.toNat]
  | .regionAt pa =>
    printing config driver (Operation.regionAt pa)
      ("query mem_id of " ++ Numeral.hex pa.toNat) fun (memId, offset) =>
        ["mem_id " ++ Numeral.decimal memId.toNat ++ " offset " ++ Numeral.hex offset.toNat]
  | .setOwnership device first last ownership =>
    runOwnership config driver device first last ownership

-- ---------------------------------------------------------------------
-- Whole command lines

structure Ran (δ : Type) where
  code : Nat
  output : String := ""
  errors : String := ""
  events : List Event := []
  host : Host δ

def Script.ran (script : Script δ Unit) (host : Host δ) : Ran δ :=
  let (result, progress) := script.on (.start host)
  match result with
  | .ok () =>
    { code := 0, output := progress.output, events := progress.events, host := progress.link.world }
  | .error failure =>
    { code := 1, output := progress.output, errors := failure.text, events := progress.events,
      host := progress.link.world }

/-- Paths come from the command line, then from the environment, then from the defaults. -/
def Invocation.config (invocation : Invocation) (environment : Environment) : Config :=
  invocation.paths.apply (Config.ofEnvironment environment).value

def run (environment : Environment) (driver : Driver δ) (host : Host δ) (arguments : List String) :
    Ran δ :=
  match Invocation.parse arguments with
  | .error .usage => { code := 2, errors := Report.usage, host := host }
  | .error .help => { code := 0, output := Report.usage, host := host }
  | .error .version => { code := 0, output := Report.version, host := host }
  | .ok invocation =>
    (invocation.command.run (invocation.config environment) driver).ran host

end FabricMemory.CommandLine
