import FabricMemory.Bytes
import FabricMemory.Text.Numeral

/-!
# Records

A record is a list of named fields, each an integer or a byte string, in a fixed order. `compact`
writes it as one line of JSON, `pretty` with one field or array element a line.
-/

namespace FabricMemory.Json

inductive Field where
  | integer (value : Int)
  | bytes (value : Bytes)
deriving DecidableEq

/-- What a column admits: an integer at least `low` and below `high`, or bytes, as many as `count`
says where it says so. -/
inductive FieldType where
  | integer (low high : Int)
  | bytes (count : Option Nat)
deriving DecidableEq

structure Column where
  name : String
  type : FieldType
  /-- Stands in where the column is left out. -/
  default? : Option Field := none

abbrev Schema := List Column

def FieldType.Admits : FieldType → Field → Prop
  | .integer low high, .integer value => low ≤ value ∧ value < high
  | .bytes none, .bytes _ => True
  | .bytes (some count), .bytes value => value.length = count
  | _, _ => False

namespace Column

def unsigned (name : String) (bits : Nat) : Column := ⟨name, .integer 0 (wordBound bits), none⟩

def signed (name : String) (bits : Nat) : Column :=
  ⟨name, .integer (-wordBound (bits - 1)) (wordBound (bits - 1)), none⟩

def exactly (name : String) (count : Nat) : Column := ⟨name, .bytes (some count), none⟩

/-- Any number of bytes, and none where the column is left out. -/
def payload (name : String) : Column := ⟨name, .bytes none, some (.bytes [])⟩

end Column

-- ---------------------------------------------------------------------
-- Writing

def separated (separator : String) (parts : List (List Char)) : List Char :=
  (parts.intersperse separator.toList).flatten

def byteText (byte : UInt8) : List Char := Nat.toDigits 10 byte.toNat

def integerText (value : Int) : List Char :=
  if value < 0 then '-' :: Nat.toDigits 10 value.natAbs else Nat.toDigits 10 value.natAbs

def Field.compact : Field → List Char
  | .integer value => integerText value
  | .bytes value => '[' :: separated "," (value.map byteText) ++ [']']

def Field.pretty : Field → List Char
  | .integer value => integerText value
  | .bytes [] => "[]".toList
  | .bytes value => "[\n    ".toList ++ separated ",\n    " (value.map byteText) ++ "\n  ]".toList

def quoted (name : String) : List Char := '"' :: name.toList ++ ['"']

abbrev Record := List (String × Field)

def Schema.record (schema : Schema) (fields : List Field) : Record :=
  (schema.map Column.name).zip fields

def Record.compact (record : Record) : String :=
  let members := record.map fun (name, field) => quoted name ++ ':' :: field.compact
  String.ofList ('\x7b' :: separated "," members ++ ['\x7d'])

def Record.pretty (record : Record) : String :=
  let members := record.map fun (name, field) => quoted name ++ ": ".toList ++ field.pretty
  String.ofList ("\x7b\n  ".toList ++ separated ",\n  " members ++ "\n\x7d".toList)

end FabricMemory.Json
