/-!
# Numerals

Reading of whole numbers in a given radix below a given bound, with the cause of a refusal, and
their hexadecimal text. Digits are taken from left to right and the first problem is the one
reported; at one place a wrong character comes before a value that is too large.
-/

namespace FabricMemory.Numeral

inductive Fault where
  | empty
  | badDigit
  | tooLarge
deriving DecidableEq, Repr

def Fault.message : Fault → String
  | .empty => "cannot parse integer from empty string"
  | .badDigit => "invalid digit found in string"
  | .tooLarge => "number too large to fit in target type"

def digitValue (radix : Nat) (c : Char) : Option Nat :=
  let value :=
    if '0' ≤ c ∧ c ≤ '9' then some (c.toNat - 48)
    else if 'a' ≤ c ∧ c ≤ 'z' then some (c.toNat - 87)
    else if 'A' ≤ c ∧ c ≤ 'Z' then some (c.toNat - 55)
    else none
  value.filter (· < radix)

def extend (radix bound value : Nat) : List Char → Except Fault Nat
  | [] => .ok value
  | c :: rest =>
    match digitValue radix c with
    | none => .error .badDigit
    | some digit =>
      let next := value * radix + digit
      if next < bound then extend radix bound next rest else .error .tooLarge

/-- One leading `+` is allowed, and at least one digit has to follow. -/
def unsigned (radix bound : Nat) : List Char → Except Fault Nat
  | [] => .error .empty
  | ['+'] => .error .badDigit
  | '+' :: digits => extend radix bound 0 digits
  | digits => extend radix bound 0 digits

def literal (bound : Nat) : List Char → Except Fault Nat
  | '0' :: 'x' :: digits => unsigned 16 bound digits
  | '0' :: 'X' :: digits => unsigned 16 bound digits
  | digits => unsigned 10 bound digits

/-- A decimal number with an optional sign, at least `-limit` and below `limit`. -/
def signed (limit : Nat) : List Char → Except Fault Int
  | ['-'] => .error .badDigit
  | '-' :: '+' :: _ => .error .badDigit
  | '-' :: digits => (unsigned 10 (limit + 1) digits).map fun n => -(n : Int)
  | digits => (unsigned 10 limit digits).map Int.ofNat

def decimal (n : Nat) : String := String.ofList (Nat.toDigits 10 n)

/-- Lower-case hexadecimal after `0x`, without leading zeros. -/
def hex (n : Nat) : String := "0x" ++ String.ofList (Nat.toDigits 16 n)

def decimalInt (n : Int) : String := if n < 0 then "-" ++ decimal n.natAbs else decimal n.natAbs

end FabricMemory.Numeral
