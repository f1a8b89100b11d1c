import FabricMemory.Text.Numeral

/-!
# Input and output errors

An error reported by the operating system is its number; any other is a text. `IoError.message` is
the only place where the texts of the system's errors stand.
-/

namespace FabricMemory

abbrev Errno := Int

namespace Errno

def noEntry : Errno := 2
def io : Errno := 5
def outOfMemory : Errno := 12
def exists_ : Errno := 17
def noDevice : Errno := 19
def notDirectory : Errno := 20
def isDirectory : Errno := 21
def invalid : Errno := 22
/-- The answer of an ordinary file to a device request. -/
def notDevice : Errno := 25
def nameTooLong : Errno := 36
def tooManyLinks : Errno := 40

def text (errno : Errno) : String :=
  match errno with
  | 0 => "Success"
  | 1 => "Operation not permitted"
  | 2 => "No such file or directory"
  | 4 => "Interrupted system call"
  | 5 => "Input/output error"
  | 11 => "Resource temporarily unavailable"
  | 12 => "Cannot allocate memory"
  | 13 => "Permission denied"
  | 14 => "Bad address"
  | 16 => "Device or resource busy"
  | 17 => "File exists"
  | 19 => "No such device"
  | 20 => "Not a directory"
  | 21 => "Is a directory"
  | 22 => "Invalid argument"
  | 25 => "Inappropriate ioctl for device"
  | 28 => "No space left on device"
  | 34 => "Numerical result out of range"
  | 36 => "File name too long"
  | 40 => "Too many levels of symbolic links"
  | 95 => "Operation not supported"
  | 110 => "Connection timed out"
  | other => "Unknown error " ++ Numeral.decimalInt other

end Errno

inductive IoError where
  | system (errno : Errno)
  | other (text : String)
deriving DecidableEq, Repr

namespace IoError

def message : IoError → String
  | .system errno => errno.text ++ " (os error " ++ Numeral.decimalInt errno ++ ")"
  | .other text => text

def errno : IoError → Errno
  | .system errno => errno
  | .other _ => Errno.io

def notUtf8 : IoError := .other "stream did not contain valid UTF-8"

def nulInPath : IoError := .other "file name contained an unexpected NUL byte"

end IoError

end FabricMemory
