import FabricMemory.Json.Reader
import FabricMemory.Text.Blank
import FabricMemory.Text.Numeral

/-!
# Flags of requests

Each kind of request has a family of named bits. A set of flags travels as the number it was given
as, unknown bits included. The flags of a payload also have a text form, names and numbers with
bars between them.
-/

namespace FabricMemory

structure FlagFamily where
  named : List (String × Nat)
deriving DecidableEq

namespace FlagFamily

def all (family : FlagFamily) : Nat := family.named.foldl (fun bits flag => bits ||| flag.2) 0

def knows (family : FlagFamily) (bits : Nat) : Bool := bits ||| family.all = family.all

def truncate (family : FlagFamily) (bits : Nat) : Nat := bits &&& family.all

def set (family : FlagFamily) (bits : Nat) : List (String × Nat) :=
  family.named.filter fun flag => bits &&& flag.2 = flag.2

def bit? (family : FlagFamily) (name : List Char) : Option Nat :=
  (family.named.find? fun flag => flag.1.toList = name).map Prod.snd

def exports : FlagFamily := ⟨[("ALLOW_MMAP", 1), ("REMOTE_NUMA", 2)]⟩
def unexports : FlagFamily := ⟨[("FORCE", 1)]⟩
def imports : FlagFamily := ⟨[("ALLOW_MMAP", 1), ("PREIMPORT", 2), ("NUMA_REMOTE", 4)]⟩
def unimports : FlagFamily := ⟨[("FORCE", 1)]⟩
def windows : FlagFamily := ⟨[("ALLOW_MMAP", 1)]⟩
def payload : FlagFamily := ⟨[("OCHIP", 32), ("CACHEABLE", 64)]⟩

end FlagFamily

structure Flags (family : FlagFamily) where
  bits : UInt64
deriving DecidableEq

abbrev ExportFlags := Flags FlagFamily.exports
abbrev UnexportFlags := Flags FlagFamily.unexports
abbrev ImportFlags := Flags FlagFamily.imports
abbrev UnimportFlags := Flags FlagFamily.unimports
abbrev WindowFlags := Flags FlagFamily.windows

namespace Flags

def ofNames (family : FlagFamily) (chosen : List String) : Flags family :=
  ⟨UInt64.ofNat ((family.named.filter fun flag => chosen.contains flag.1).foldl
    (fun bits flag => bits ||| flag.2) 0)⟩

def has {family : FlagFamily} (flags : Flags family) (bit : UInt64) : Bool :=
  flags.bits &&& bit = bit

/-- Whether the distance of an import reaches the driver: for a remote NUMA node that is not placed
in a window declared before. -/
def checksDistance (flags : ImportFlags) : Bool := flags.has 4 && !flags.has 2

end Flags

-- ---------------------------------------------------------------------
-- Flags of payloads

structure PayloadFlags where
  bits : UInt16
deriving DecidableEq

namespace PayloadFlags

def splitBars : List Char → List (List Char)
  | [] => [[]]
  | c :: rest =>
    if c = '|' then [] :: splitBars rest
    else
      match splitBars rest with
      | [] => [[c]]
      | first :: others => (c :: first) :: others

def parsePart : List Char → Option Nat
  | '0' :: 'x' :: digits => (Numeral.unsigned 16 (wordBound 16) digits).toOption
  | name => FlagFamily.payload.bit? name

/-- A blank text is the empty set; no part between bars may be blank. -/
def parse (text : List Char) : Option PayloadFlags :=
  if Text.trim text = [] then some ⟨0⟩
  else do
    let parts ← (splitBars text).mapM fun part => parsePart (Text.trim part)
    return ⟨UInt16.ofNat (parts.foldl (· ||| ·) 0)⟩

/-- The names that are set, then all other bits as one number. -/
def text (flags : PayloadFlags) : String :=
  let bits := flags.bits.toNat
  let names := (FlagFamily.payload.set bits).map Prod.fst
  let rest := bits ^^^ FlagFamily.payload.truncate bits
  " | ".intercalate (names ++ if rest = 0 then [] else [Numeral.hex rest])

def toJson (flags : PayloadFlags) : String := "\"" ++ flags.text ++ "\""

def ofJson (json : String) : Except Json.Fault PayloadFlags := Json.readString parse json.toList

end PayloadFlags

end FabricMemory
