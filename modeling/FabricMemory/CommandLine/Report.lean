import FabricMemory.CommandLine.Grammar
import FabricMemory.Controller.Listing
import FabricMemory.Descriptor

/-!
# Texts of the command line

What the commands print, and how a failure is shown: what was being done, then the causes, one
below the other and numbered where there are several.
-/

namespace FabricMemory.CommandLine

structure Failure where
  context : String
  causes : List String
deriving DecidableEq, Repr

namespace Failure

def ofError (context : String) (e : Error) : Failure := ⟨context, e.message :: e.source?.toList⟩

/-- Lines of a cause after the first stand below its text. -/
def indented (first other : String) (cause : String) : String :=
  first ++ ("\n" ++ other).intercalate (cause.splitOn "\n") ++ "\n"

def numbered (index : Nat) (cause : String) : String :=
  indented ("    " ++ Numeral.decimal index ++ ": ") "       " cause

def causesText : List String → String
  | [] => ""
  | [cause] => "\nCaused by:\n" ++ indented "    " "    " cause
  | causes =>
    "\nCaused by:\n" ++ String.join (causes.mapIdx numbered)

def text (failure : Failure) : String :=
  "Error: " ++ failure.context ++ "\n" ++ causesText failure.causes

end Failure

namespace Report

def lines (texts : List String) : String := String.join (texts.map fun text => text ++ "\n")

def orDash (text : Option String) : String := text.getD "-"

def controllerLines (info : ControllerInfo) : List String :=
  ["[" ++ Numeral.decimal info.index ++ "] " ++ info.path.display,
   "     eid          " ++ orDash (info.eid?.map Eid.text),
   "     ummu_map     " ++ orDash (info.ummuMap?.map fun value => Numeral.decimalInt value.toInt),
   "     numa         " ++ orDash (info.numa?.map fun value => Numeral.decimalInt value.toInt),
   "     primary_cna  " ++ orDash (info.primaryCna?.map fun value => Numeral.hex value.toNat), ""]

def attachmentLines : Except Error Attachment → List String
  | .ok attachment =>
    ["UMMU mapping : " ++ Numeral.decimal attachment.ummuMap.toNat,
     "NUMA node    : " ++ Numeral.decimalInt attachment.numa.toInt]
  | .error e => ["UMMU / NUMA  : (" ++ e.message ++ ")"]

def adapterText : Except Error UInt32 → String
  | .ok cna => Numeral.hex cna.toNat
  | .error e => "(" ++ e.message ++ ")"

def exportedLines (memId : UInt64) (region : Descriptor) (path : Path) : List String :=
  ["mem_id     : " ++ Numeral.decimal memId.toNat,
   "uba        : " ++ Numeral.hex region.addr.toNat,
   "length     : " ++ Numeral.hex region.length.toNat,
   "tokenid    : " ++ Numeral.decimal region.tokenid.toNat,
   "descriptor : " ++ path.display]

def version : String := lines ["obmm 0.3.0"]

def usage : String :=
  lines
    ["Usage: obmm [--sysfs-root PATH] [--device PATH] [--desc-dir PATH] COMMAND",
     "",
     "  controllers",
     "  resolve EID",
     "  export --eid EID [--seid EID] --size BYTES.. [--allow-mmap] [--remote-numa]",
     "  unexport MEM-ID [--force]",
     "  import MEM-ID [--scna CNA] [--dcna CNA] [--numa NODE] [--base-dist DISTANCE]",
     "         [--numa-remote] [--preimport] [--allow-mmap]",
     "  unimport MEM-ID [--force]",
     "  query-pa MEM-ID [OFFSET]",
     "  query-memid PA",
     "  ownership DEVICE START END none|read|rw"]

end Report

end FabricMemory.CommandLine
