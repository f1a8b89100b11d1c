import FabricMemory.Eid
import FabricMemory.Error
import FabricMemory.Request.Layout

/-!
# Commands

The structures that the driver is handed. What the driver fills in is zero, or a hint, when a
command is submitted. Payload and vendor blob are what stands behind the addresses in a structure; a
null address is `none`.
-/

namespace FabricMemory

structure ExportCommand where
  sizes : Vector UInt64 maxLocalNodes := Vector.replicate maxLocalNodes 0
  /-- Number of slots in `sizes`. -/
  length : UInt64 := 0
  flags : UInt64 := 0
  uba : UInt64 := 0
  memId : UInt64 := 0
  tokenid : UInt32 := 0
  /-- NUMA node of the exporting controller. -/
  pxmNuma : Int32 := 0
  payloadLength : UInt16 := 0
  vendorLength : UInt16 := 0
  deid : Eid := Eid.zero
  payload : Option Bytes := none
  vendor : Option Bytes := none
deriving DecidableEq

structure ExportRangeCommand where
  va : UInt64 := 0
  length : UInt64 := 0
  flags : UInt64 := 0
  uba : UInt64 := 0
  memId : UInt64 := 0
  tokenid : UInt32 := 0
  /-- The process; 0 is the caller. -/
  pid : Int32 := 0
  /-- NUMA node of the exporting controller. -/
  pxmNuma : Int32 := 0
  payloadLength : UInt16 := 0
  vendorLength : UInt16 := 0
  deid : Eid := Eid.zero
  payload : Option Bytes := none
  vendor : Option Bytes := none
deriving DecidableEq

structure ImportCommand where
  flags : UInt64 := 0
  memId : UInt64 := 0
  addr : UInt64 := 0
  length : UInt64 := 0
  tokenid : UInt32 := 0
  scna : UInt32 := 0
  dcna : UInt32 := 0
  /-- A hint that the driver replaces by its choice. -/
  numaId : Int32 := 0
  payloadLength : UInt16 := 0
  baseDistance : UInt8 := 0
  deid : Eid := Eid.zero
  seid : Eid := Eid.zero
  payload : Option Bytes := none
deriving DecidableEq

/-- End of an export or of an import. -/
structure EndCommand where
  memId : UInt64 := 0
  flags : UInt64 := 0
deriving DecidableEq

structure WindowCommand where
  pa : UInt64 := 0
  length : UInt64 := 0
  flags : UInt64 := 0
  /-- A hint that the driver replaces by its choice. -/
  numaId : Int32 := 0
  scna : UInt32 := 0
  dcna : UInt32 := 0
  payloadLength : UInt16 := 0
  baseDistance : UInt8 := 0
  deid : Eid := Eid.zero
  seid : Eid := Eid.zero
  payload : Option Bytes := none
deriving DecidableEq

/-- Translation between a physical address and an offset in a region. -/
structure QueryCommand where
  /-- Says which side is given. -/
  keyType : UInt32 := 0
  memId : UInt64 := 0
  offset : UInt64 := 0
  pa : UInt64 := 0
deriving DecidableEq

namespace QueryCommand

def byAddress : UInt32 := 0

def byOffset : UInt32 := 1

end QueryCommand

structure RangeUpdate where
  first : UInt64
  /-- First address past the range. -/
  last : UInt64
  memState : UInt64
  cacheOps : UInt8
deriving DecidableEq

-- ---------------------------------------------------------------------
-- Sizes

open Layout

def ExportCommand.size : Nat :=
  Layout.size [longs maxLocalNodes, long, long, long, long, word, word, half, half, bytes Eid.size,
    long, long]

def ExportRangeCommand.size : Nat :=
  Layout.size [long, long, long, long, long, word, word, word, half, half, bytes Eid.size, long,
    long]

def ImportCommand.size : Nat :=
  Layout.size [long, long, long, long, word, word, word, word, half, byte, bytes Eid.size,
    bytes Eid.size, long]

def EndCommand.size : Nat := Layout.size [long, long]

def WindowCommand.size : Nat :=
  Layout.size [long, long, long, word, word, word, half, byte, bytes Eid.size, bytes Eid.size, long]

def QueryCommand.size : Nat := Layout.size [word, long, long, long]

def RangeUpdate.size : Nat := Layout.size [long, long, long, byte]

end FabricMemory
