import FabricMemory.Eid
import FabricMemory.IoError
import FabricMemory.Json.Number
import FabricMemory.Path
import FabricMemory.Protection

/-!
# Errors

Every failure is a cause. `Error.message` holds the wording, `Error.errno` the number for callers
that speak in error numbers, and `Error.source?` the error of the operating system behind it.
-/

namespace FabricMemory

inductive Absence where
  | noMarker (index : Nat)
  | unreadable (name : String) (directory : Path)
  | noOwner (eid : Eid)
  | otherAdapter (eid : Eid) (actual asked : UInt32)
  | other (reason : String)
deriving DecidableEq

inductive Misuse where
  | badEid (text : String) (fault : Numeral.Fault)
  | eidHalf (text : String)
  | tooManySizes (count : Nat)
  | sizesOverflow
  | payloadTooLong (length : Nat)
  | baseDistance (value : Int32)
  | reservedMemId
  | zeroDestination
  | maskWidth (ummuMap : Nat)
  | vendorInfoLength (length : Nat)
  | vendorInfoCapacity (length : Nat)
  | vendorInfoVersion (version : Nat)
  | unknownOwnership (text : String)
  | negativeProtection (bits : UInt32)
  | unsupportedProtection (protection : Protection)
  | rootNotUtf8 (root : Path)
  | longControllerPath (path : Path)
  | noOpener
  | other (reason : String)
deriving DecidableEq

inductive AttributeFault where
  | notOpened (source : IoError)
  | notRead (source : IoError)
  | empty
  | noNumber
  | outOfRange (value : Int)
  | other (reason : String)
deriving DecidableEq

inductive Error where
  | noSuchDevice (why : Absence)
  | invalidArgument (why : Misuse)
  | outOfMemory (reason : String)
  | badAttribute (path : Path) (why : AttributeFault)
  | deviceOpen (path : Path) (source : IoError)
  | driver (request : String) (source : IoError)
  | io (source : IoError)
  | json (fault : Json.Fault)
deriving DecidableEq

/-- Size slots of an export, one for each local NUMA node. -/
def maxLocalNodes : Nat := 16

/-- Longest private payload; its length travels in 16 bits. -/
def maxPayload : Nat := 65535

def vendorInfoSize : Nat := 24

def maxVendorInfo : Nat := 128

def maxControllerPath : Nat := 256

def Absence.message : Absence → String
  | .noMarker index => "controller " ++ Numeral.decimal index ++ " has no ubc entry"
  | .unreadable name directory => "unreadable " ++ name ++ " at " ++ directory.display
  | .noOwner eid => "no controller owns eid " ++ eid.text
  | .otherAdapter eid actual asked =>
    "eid " ++ eid.text ++ " is reached through cna " ++ Numeral.hex actual.toNat ++ ", not "
      ++ Numeral.hex asked.toNat
  | .other reason => reason

def Misuse.message : Misuse → String
  | .badEid text fault => "Bad EID '" ++ text ++ "': " ++ fault.message
  | .eidHalf text => "EID half out of range: " ++ text
  | .tooManySizes count =>
    Numeral.decimal count ++ " sizes for " ++ Numeral.decimal maxLocalNodes ++ " local NUMA nodes"
  | .sizesOverflow => "export sizes overflow u64"
  | .payloadTooLong length =>
    "private payload of " ++ Numeral.decimal length ++ " bytes exceeds "
      ++ Numeral.decimal maxPayload
  | .baseDistance value => "base_dist " ++ Numeral.decimalInt value.toInt ++ " outside 0..=255"
  | .reservedMemId => "invalid mem_id 0"
  | .zeroDestination => "zero destination eid"
  | .maskWidth ummuMap => "ummu_map " ++ Numeral.decimal ummuMap ++ " exceeds mask width"
  | .vendorInfoLength length =>
    "vendor info of " ++ Numeral.decimal length ++ " bytes, need " ++ Numeral.decimal vendorInfoSize
  | .vendorInfoCapacity length =>
    "vendor info of " ++ Numeral.decimal length ++ " bytes exceeds " ++ Numeral.decimal maxVendorInfo
  | .vendorInfoVersion version => "unknown vendor info version " ++ Numeral.decimal version
  | .unknownOwnership text => "unknown ownership '" ++ text ++ "'"
  | .negativeProtection bits => "unsupported prot " ++ Numeral.hex bits.toNat
  | .unsupportedProtection protection =>
    "unsupported protection ProtFlags(" ++ protection.text ++ ")"
  | .rootNotUtf8 root => "sysfs root " ++ root.display ++ " is not UTF-8"
  | .longControllerPath path =>
    "controller path " ++ path.display ++ " exceeds " ++ Numeral.decimal maxControllerPath
      ++ " bytes"
  | .noOpener => "preopened channel cache has no opener"
  | .other reason => reason

def AttributeFault.message : AttributeFault → String
  | .notOpened source => "open failed: " ++ source.message
  | .notRead source => "read failed: " ++ source.message
  | .empty => "empty"
  | .noNumber => "no numeric value"
  | .outOfRange value => Numeral.decimalInt value ++ " out of range"
  | .other reason => reason

def Json.Fault.message : Json.Fault → String
  | .malformed => "not well-formed"
  | .truncated => "unexpected end"
  | .mismatched => "not a descriptor"

namespace Error

def message : Error → String
  | .noSuchDevice why => "No such device: " ++ why.message
  | .invalidArgument why => "Invalid argument: " ++ why.message
  | .outOfMemory reason => "Out of memory: " ++ reason
  | .badAttribute path why => "Bad attribute " ++ path.display ++ ": " ++ why.message
  | .deviceOpen path source => "Cannot open " ++ path.display ++ ": " ++ source.message
  | .driver request source => request ++ " failed: " ++ source.message
  | .io source => "I/O error: " ++ source.message
  | .json fault => "Descriptor JSON: " ++ fault.message

def errno : Error → Errno
  | .noSuchDevice _ => Errno.noDevice
  | .invalidArgument _ | .json _ => Errno.invalid
  | .outOfMemory _ => Errno.outOfMemory
  | .badAttribute .. => Errno.io
  | .deviceOpen _ source | .driver _ source | .io source => source.errno

def source? : Error → Option String
  | .deviceOpen _ source | .driver _ source | .io source => some source.message
  | .json fault => some fault.message
  | _ => none

end Error

end FabricMemory
