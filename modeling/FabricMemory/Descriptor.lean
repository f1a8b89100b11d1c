import FabricMemory.Eid
import FabricMemory.Json.Reader
import FabricMemory.Payload

/-!
# Descriptors of exported regions

An export fills in a descriptor; sent to another node as JSON it tells an import what to map.
-/

namespace FabricMemory

structure Descriptor where
  addr : UInt64 := 0
  length : UInt64 := 0
  /-- Endpoint of the importer's side. -/
  seid : Eid := Eid.zero
  /-- Endpoint of the exporter's side. -/
  deid : Eid := Eid.zero
  tokenid : UInt32 := 0
  /-- Source channel adapter. -/
  scna : UInt32 := 0
  /-- Destination channel adapter. -/
  dcna : UInt32 := 0
  payload : Bytes := []
deriving DecidableEq, Inhabited

namespace Descriptor

def payloadLength (region : Descriptor) : Except Error UInt16 := Payload.length region.payload

def setFlags (region : Descriptor) (flags : PayloadFlags) : Descriptor :=
  { region with payload := Payload.ofFlags flags }

def flags? (region : Descriptor) : Option PayloadFlags := Payload.flags? region.payload

-- ---------------------------------------------------------------------
-- JSON

def schema : Json.Schema :=
  [.unsigned "addr" 64, .unsigned "length" 64, .exactly "seid" Eid.size, .exactly "deid" Eid.size,
   .unsigned "tokenid" 32, .unsigned "scna" 32, .unsigned "dcna" 32, .payload "priv_data"]

def fields (region : Descriptor) : List Json.Field :=
  [.integer region.addr.toNat, .integer region.length.toNat, .bytes region.seid.bytes,
   .bytes region.deid.bytes, .integer region.tokenid.toNat, .integer region.scna.toNat,
   .integer region.dcna.toNat, .bytes region.payload]

def ofFields? : List Json.Field → Option Descriptor
  | [.integer addr, .integer length, .bytes seid, .bytes deid, .integer tokenid, .integer scna,
     .integer dcna, .bytes payload] =>
    some ⟨UInt64.ofNat addr.toNat, UInt64.ofNat length.toNat, Eid.ofBytes seid, Eid.ofBytes deid,
      UInt32.ofNat tokenid.toNat, UInt32.ofNat scna.toNat, UInt32.ofNat dcna.toNat, payload⟩
  | _ => none

theorem ofFields?_fields (region : Descriptor) : ofFields? region.fields = some region := by
  simp [fields, ofFields?, Eid.ofBytes_bytes]

def record (region : Descriptor) : Json.Record := schema.record region.fields

def toJson (region : Descriptor) : String := region.record.compact

def ofJson (text : String) : Except Error Descriptor :=
  match Json.readRecord schema text.toList with
  | .error fault => .error (.json fault)
  | .ok fields =>
    match ofFields? fields with
    | some region => .ok region
    | none => .error (.json .mismatched)

end Descriptor

end FabricMemory
