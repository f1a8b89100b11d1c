import FabricMemory.Error
import FabricMemory.FileSystem.Access
import FabricMemory.Log
import FabricMemory.Text.Blank

/-!
# Attributes of controllers

An attribute is a short file that begins with an integer: decimal, hexadecimal after `0x` or octal
after `0`. What follows the number does not matter, nor does anything past the first 63 bytes.
`number?` is the value of the number, held within 64 bits; `read` admits 32 bits only.
-/

namespace FabricMemory.Attribute

/-- The blanks that may stand before the number; the vertical tab is not one of them. -/
def isSpace (byte : UInt8) : Bool :=
  byte = 0x20 || byte = 0x09 || byte = 0x0a || byte = 0x0c || byte = 0x0d

def splitSign : Bytes → Bool × Bytes
  | 0x2d :: rest => (true, rest)
  | 0x2b :: rest => (false, rest)
  | text => (false, text)

def digit? (radix : Nat) (byte : UInt8) : Option Nat :=
  Numeral.digitValue radix (Char.ofNat byte.toNat)

/-- The radix that the first characters select, and the text from the first digit on. -/
def splitRadix : Bytes → Nat × Bytes
  | 0x30 :: x :: next :: rest =>
    if (x = 0x78 ∨ x = 0x58) ∧ (digit? 16 next).isSome then (16, next :: rest)
    else (8, 0x30 :: x :: next :: rest)
  | 0x30 :: rest => (8, 0x30 :: rest)
  | text => (10, text)

def digits (radix : Nat) : Bytes → List Nat
  | [] => []
  | byte :: rest =>
    match digit? radix byte with
    | some digit => digit :: digits radix rest
    | none => []

/-- Magnitude of the least 64-bit integer. -/
def ceiling : Nat := wordBound 63

/-- The value of a run of digits, cut off at `ceiling` with every digit. -/
def magnitude (radix : Nat) (digits : List Nat) : Nat :=
  digits.foldl (fun value digit => min (value * radix + digit) ceiling) 0

def number? (text : Bytes) : Option Int :=
  let (negative, text) := splitSign (text.dropWhile isSpace)
  let (radix, text) := splitRadix text
  match digits radix text with
  | [] => none
  | run =>
    let value := magnitude radix run
    some (if negative then -(value : Int) else min value (ceiling - 1))

/-- Bytes of a file that are looked at. -/
def maxLength : Nat := 63

def inRange (value : Int) : Bool := -wordBound 31 ≤ value && value < wordBound 31

def parse (path : Path) (content : Bytes) : Logged (Except Error Int32) := do
  let text := content.take maxLength
  if text = [] then
    Logged.log .error ("failed to read data from " ++ path.display)
    return .error (.badAttribute path .empty)
  match number? text with
  | none =>
    let shown := String.ofList (Text.trimEnd (Utf8.lossyChars text))
    Logged.log .error ("failed to parse int value from '" ++ shown ++ "' in " ++ path.display)
    return .error (.badAttribute path .noNumber)
  | some value =>
    if inRange value then return .ok (Int32.ofInt value)
    Logged.log .error ("read overflowed " ++ path.display ++ ": " ++ Numeral.decimalInt value)
    return .error (.badAttribute path (.outOfRange value))

def read (files : FileSystem) (path : Path) : Logged (Except Error Int32) :=
  match files.openRead path with
  | .error source => do
    Logged.log .error ("failed to open file " ++ path.display ++ ": " ++ source.message)
    return .error (.badAttribute path (.notOpened source))
  | .ok file =>
    match file.read with
    | .error source => do
      Logged.log .error ("failed to read data from " ++ path.display ++ ": " ++ source.message)
      return .error (.badAttribute path (.notRead source))
    | .ok content => parse path content

end FabricMemory.Attribute
