import FabricMemory.Eid
import FabricMemory.Json.Reader
import FabricMemory.Payload

/-!
# Pre-import windows

A window is a range of physical addresses declared before the imports that it is to hold.
-/

namespace FabricMemory

structure Window where
  pa : UInt64 := 0
  length : UInt64 := 0
  baseDistance : Int32 := 0
  /-- A hint; the driver's choice once the window is declared. -/
  numaId : Int32 := 0
  /-- Endpoint of the importer's side. -/
  seid : Eid := Eid.zero
  /-- Endpoint of the exporter's side. -/
  deid : Eid := Eid.zero
  /-- Source channel adapter. -/
  scna : UInt32 := 0
  /-- Destination channel adapter. -/
  dcna : UInt32 := 0
  payload : Bytes := []
deriving DecidableEq, Inhabited

namespace Window

def payloadLength (window : Window) : Except Error UInt16 := Payload.length window.payload

-- ---------------------------------------------------------------------
-- JSON

def schema : Json.Schema :=
  [.unsigned "pa" 64, .unsigned "length" 64, .signed "base_dist" 32, .signed "numa_id" 32,
   .exactly "seid" Eid.size, .exactly "deid" Eid.size, .unsigned "scna" 32, .unsigned "dcna" 32,
   .payload "priv_data"]

def fields (window : Window) : List Json.Field :=
  [.integer window.pa.toNat, .integer window.length.toNat, .integer window.baseDistance.toInt,
   .integer window.numaId.toInt, .bytes window.seid.bytes, .bytes window.deid.bytes,
   .integer window.scna.toNat, .integer window.dcna.toNat, .bytes window.payload]

def ofFields? : List Json.Field → Option Window
  | [.integer pa, .integer length, .integer baseDistance, .integer numaId, .bytes seid,
     .bytes deid, .integer scna, .integer dcna, .bytes payload] =>
    some ⟨UInt64.ofNat pa.toNat, UInt64.ofNat length.toNat, Int32.ofInt baseDistance,
      Int32.ofInt numaId, Eid.ofBytes seid, Eid.ofBytes deid, UInt32.ofNat scna.toNat,
      UInt32.ofNat dcna.toNat, payload⟩
  | _ => none

theorem ofFields?_fields (window : Window) : ofFields? window.fields = some window := by
  simp [fields, ofFields?, Eid.ofBytes_bytes]

def record (window : Window) : Json.Record := schema.record window.fields

def toJson (window : Window) : String := window.record.compact

def ofJson (text : String) : Except Error Window :=
  match Json.readRecord schema text.toList with
  | .error fault => .error (.json fault)
  | .ok fields =>
    match ofFields? fields with
    | some window => .ok window
    | none => .error (.json .mismatched)

end Window

end FabricMemory
