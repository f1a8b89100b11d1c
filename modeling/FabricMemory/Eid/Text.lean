import FabricMemory.Error
import FabricMemory.Text.Blank

/-!
# Reading endpoint identifiers

An identifier is one number, or two 64-bit halves around the first colon. Numbers are decimal, or
hexadecimal after `0x`; blanks around them do not matter.
-/

namespace FabricMemory.Eid

/-- One number of the identifier `whole`, which an error names. -/
def parsePart (part whole : List Char) : Except Error Nat :=
  match Numeral.literal (wordBound 128) (Text.trim part) with
  | .ok value => .ok value
  | .error fault => .error (.invalidArgument (.badEid (String.ofList whole) fault))

def parseChars (whole : List Char) : Except Error Eid :=
  match whole.span (· ≠ ':') with
  | (all, []) => (parsePart all whole).map ofNat
  | (high, _ :: low) => do
    let high ← parsePart high whole
    let low ← parsePart low whole
    if wordBound 64 ≤ high ∨ wordBound 64 ≤ low then
      throw (.invalidArgument (.eidHalf (String.ofList whole)))
    return ofHalves high low

def parse (text : String) : Except Error Eid := parseChars (Text.trim text.toList)

end FabricMemory.Eid
