import FabricMemory.Word

/-!
# Numbers in a JSON text

A number literal is kept as its digits. Its value is an integer where it has neither fraction nor
exponent and fits 64 bits; any other literal is a real number, which only has to be in the range of
double precision. `overflows` decides that range in exact arithmetic.
-/

namespace FabricMemory.Json

/-- What is wrong with a text: it cannot be JSON, it ends too early, or it is not what was asked
for. -/
inductive Fault where
  | malformed
  | truncated
  | mismatched
deriving DecidableEq, Repr

structure Literal where
  negative : Bool
  whole : List Nat
  fraction : List Nat := []
  exponent : Option (Bool × List Nat) := none
deriving DecidableEq, Repr

inductive Number where
  | integer (value : Int)
  | real
deriving DecidableEq, Repr

def digitsValue (digits : List Nat) : Nat := digits.foldl (fun value digit => value * 10 + digit) 0

-- ---------------------------------------------------------------------
-- The range of double precision

/-- The nearest multiple of a power of two that has at most 53 significant bits, ties to even. -/
def round53 (n : Nat) : Nat :=
  let unit := wordBound (n.log2 - 52)
  let below := n / unit
  let up := unit < 2 * (n % unit) ∨ (unit = 2 * (n % unit) ∧ below % 2 = 1)
  (if up then below + 1 else below) * unit

/-- Halfway between the largest double and the next power of two. -/
def doubleLimit : Nat := wordBound 1024 - wordBound 970

/-- Whether `mantissa · 10^exponent`, each factor and the product rounded to double precision, is
infinite. The mantissa has at most 64 bits. -/
def overflows (mantissa : Nat) (exponent : Int) : Bool :=
  if exponent ≤ 0 then false
  else if exponent > 308 then mantissa ≠ 0
  else doubleLimit ≤ round53 mantissa * round53 (Nat.pow 10 exponent.toNat)

/-- Extends a mantissa by digits while it fits 64 bits, and counts the digits left out. -/
def absorb (mantissa : Nat) : List Nat → Nat × Nat
  | [] => (mantissa, 0)
  | digit :: rest =>
    if mantissa * 10 + digit < wordBound 64 then absorb (mantissa * 10 + digit) rest
    else (mantissa, rest.length + 1)

namespace Literal

def outOfRange (literal : Literal) : Bool :=
  let (head, dropped) := absorb 0 literal.whole
  let (mantissa, ignored) := absorb head literal.fraction
  let scale : Int := dropped - (literal.fraction.length - ignored : Nat)
  match literal.exponent with
  | none => overflows mantissa scale
  | some (negative, digits) =>
    let shift := digitsValue digits
    if shift < wordBound 31 then
      overflows mantissa (if negative then scale - shift else scale + shift)
    else !negative && mantissa ≠ 0

def value (literal : Literal) : Except Fault Number :=
  let n := digitsValue literal.whole
  if literal.fraction = [] ∧ literal.exponent = none ∧ n < wordBound 64 then
    if literal.negative = false then .ok (.integer n)
    else if 0 < n ∧ n ≤ wordBound 63 then .ok (.integer (-n))
    else .ok .real
  else if literal.outOfRange then .error .malformed
  else .ok .real

end Literal

end FabricMemory.Json
