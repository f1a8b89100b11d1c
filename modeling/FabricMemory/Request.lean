import FabricMemory.Command

/-!
# Requests and replies

A request is a command with what to do about it. The driver's reply says which of the command's
output fields it wrote, and whether it then refused; a field that was not written keeps what was
submitted.
-/

namespace FabricMemory

inductive Request where
  | exportPages (command : ExportCommand)
  | exportRange (command : ExportRangeCommand)
  | importRegion (command : ImportCommand)
  | endExport (command : EndCommand)
  | endImport (command : EndCommand)
  | declareWindow (command : WindowCommand)
  | withdrawWindow (command : WindowCommand)
  | query (command : QueryCommand)
deriving DecidableEq

namespace Request

def name : Request → String
  | .exportPages _ => "export"
  | .exportRange _ => "export_pid"
  | .importRegion _ => "import"
  | .endExport _ => "unexport"
  | .endImport _ => "unimport"
  | .declareWindow _ => "declare_preimport"
  | .withdrawWindow _ => "undeclare_preimport"
  | .query _ => "addr_query"

def number : Request → Nat
  | .exportPages _ => requestNumber controlType 0 ExportCommand.size
  | .importRegion _ => requestNumber controlType 1 ImportCommand.size
  | .endExport _ => requestNumber controlType 2 EndCommand.size
  | .endImport _ => requestNumber controlType 3 EndCommand.size
  | .query _ => requestNumber controlType 4 QueryCommand.size
  | .exportRange _ => requestNumber controlType 5 ExportRangeCommand.size
  | .declareWindow _ => requestNumber controlType 6 WindowCommand.size
  | .withdrawWindow _ => requestNumber controlType 7 WindowCommand.size

end Request

namespace RangeUpdate

def requestName : String := "update_range"

def number : Nat := requestNumber rangeType 0 RangeUpdate.size

end RangeUpdate

-- ---------------------------------------------------------------------
-- Replies

/-- What the driver wrote, whatever it then decided. -/
structure Reply where
  uba : Option UInt64 := none
  memId : Option UInt64 := none
  tokenid : Option UInt32 := none
  numaId : Option Int32 := none
  offset : Option UInt64 := none
  pa : Option UInt64 := none
  refusal : Option IoError := none
deriving DecidableEq

namespace Reply

def verdict (reply : Reply) (request : String) : Except Error Unit :=
  match reply.refusal with
  | none => .ok ()
  | some source => .error (.driver request source)

end Reply

def ImportCommand.answered (command : ImportCommand) (reply : Reply) : ImportCommand :=
  { command with
    memId := reply.memId.getD command.memId
    numaId := reply.numaId.getD command.numaId }

def WindowCommand.answered (command : WindowCommand) (reply : Reply) : WindowCommand :=
  { command with numaId := reply.numaId.getD command.numaId }

def QueryCommand.answered (command : QueryCommand) (reply : Reply) : QueryCommand :=
  { command with
    memId := reply.memId.getD command.memId
    offset := reply.offset.getD command.offset
    pa := reply.pa.getD command.pa }

end FabricMemory
