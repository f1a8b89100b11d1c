import FabricMemory.Json.Number

/-!
# Tokens of a JSON text

`tokens` cuts a text into tokens and stops at the first one that is broken off. A token keeps what
was written, so that a reader that wants its value and one that only skips it can each apply their
own rules: a value is looked at more closely (`Token.integer`, `Token.content`) than what is skipped
(`Token.skipFault`).
-/

namespace FabricMemory.Json

/-- Where a number breaks off: at the end of the text or before a wrong character. -/
inductive Stop where
  | atEnd
  | early
deriving DecidableEq, Repr

/-- A character of a string, or a code unit from a `\u` escape. -/
inductive Piece where
  | plain (c : Char)
  | unit (code : Nat)
deriving DecidableEq, Repr

inductive Token where
  | beginArray
  | endArray
  | beginObject
  | endObject
  | comma
  | colon
  | word (fault : Option Fault)
  | number (literal : Except Stop Literal)
  | text (pieces : List Piece) (fault : Option Fault)
  | stray (c : Char)

def isSpace (c : Char) : Bool := c = ' ' || c = '\t' || c = '\n' || c = '\r'

-- ---------------------------------------------------------------------
-- Words and numbers

def scanWord : List Char → List Char → Option Fault × List Char
  | [], rest => (none, rest)
  | _ :: _, [] => (some .truncated, [])
  | w :: word, c :: rest => if c = w then scanWord word rest else (some .malformed, rest)

def stopAt (rest : List Char) : Stop := if rest.isEmpty then .atEnd else .early

def digitValues (digits : List Char) : List Nat := digits.map fun c => c.toNat - 48

def scanExponent (literal : Literal) : List Char → Except Stop Literal × List Char
  | [] => (.ok literal, [])
  | c :: rest =>
    if c = 'e' ∨ c = 'E' then
      let negative := rest.head? = some '-'
      let rest := if rest.head? = some '-' ∨ rest.head? = some '+' then rest.tail else rest
      let digits := rest.takeWhile Char.isDigit
      let rest := rest.dropWhile Char.isDigit
      if digits = [] then (.error (stopAt rest), rest)
      else (.ok { literal with exponent := some (negative, digitValues digits) }, rest)
    else (.ok literal, c :: rest)

def scanFraction (literal : Literal) : List Char → Except Stop Literal × List Char
  | [] => (.ok literal, [])
  | c :: rest =>
    if c = '.' then
      let digits := rest.takeWhile Char.isDigit
      let rest := rest.dropWhile Char.isDigit
      if digits = [] then (.error (stopAt rest), rest)
      else scanExponent { literal with fraction := digitValues digits } rest
    else scanExponent literal (c :: rest)

/-- A number whose whole digits have been read; of these, a zero in front has to stand alone. -/
def scanNumber (negative : Bool) (whole rest : List Char) : Except Stop Literal × List Char :=
  if whole = [] then (.error (stopAt rest), rest)
  else if whole.head? = some '0' ∧ whole.length > 1 then (.error .early, rest)
  else scanFraction ⟨negative, digitValues whole, [], none⟩ rest

-- ---------------------------------------------------------------------
-- Strings

def hexDigit? (c : Char) : Option Nat :=
  if '0' ≤ c ∧ c ≤ '9' then some (c.toNat - 48)
  else if 'a' ≤ c ∧ c ≤ 'f' then some (c.toNat - 87)
  else if 'A' ≤ c ∧ c ≤ 'F' then some (c.toNat - 55)
  else none

def codeUnit? (a b c d : Char) : Option Nat := do
  return (← hexDigit? a) * 4096 + (← hexDigit? b) * 256 + (← hexDigit? c) * 16 + (← hexDigit? d)

def escaped? : Char → Option Char
  | '"' => some '"'
  | '\\' => some '\\'
  | '/' => some '/'
  | 'b' => some '\x08'
  | 'f' => some '\x0c'
  | 'n' => some '\n'
  | 'r' => some '\r'
  | 't' => some '\t'
  | _ => none

/-- What is wrong after `\u` when less than four characters are left: they may still be four
bytes. -/
def shortUnit (rest : List Char) : Fault :=
  if (String.ofList rest).utf8ByteSize < 4 then .truncated else .malformed

def scanText (done : List Piece) : List Char → Token × List Char
  | [] => (.text done.reverse (some .truncated), [])
  | '"' :: rest => (.text done.reverse none, rest)
  | ['\\'] => (.text done.reverse (some .truncated), [])
  | '\\' :: 'u' :: a :: b :: c :: d :: rest =>
    match codeUnit? a b c d with
    | some code => scanText (.unit code :: done) rest
    | none => (.text done.reverse (some .malformed), rest)
  | '\\' :: 'u' :: rest => (.text done.reverse (some (shortUnit rest)), [])
  | '\\' :: c :: rest =>
    match escaped? c with
    | some c => scanText (.plain c :: done) rest
    | none => (.text done.reverse (some .malformed), rest)
  | c :: rest =>
    if c.toNat < 0x20 then (.text done.reverse (some .malformed), rest)
    else scanText (.plain c :: done) rest

-- ---------------------------------------------------------------------
-- Cutting a text

def scanWordToken (tail : String) (rest : List Char) : Token × List Char :=
  (scanWord tail.toList rest).map .word id

def scanNumberToken (negative : Bool) (first rest : List Char) : Token × List Char :=
  (scanNumber negative (first ++ rest.takeWhile Char.isDigit) (rest.dropWhile Char.isDigit)).map
    .number id

def scan (c : Char) (rest : List Char) : Token × List Char :=
  match c with
  | '[' => (.beginArray, rest)
  | ']' => (.endArray, rest)
  | '\x7b' => (.beginObject, rest)
  | '\x7d' => (.endObject, rest)
  | ',' => (.comma, rest)
  | ':' => (.colon, rest)
  | '"' => scanText [] rest
  | 'n' => scanWordToken "ull" rest
  | 't' => scanWordToken "rue" rest
  | 'f' => scanWordToken "alse" rest
  | '-' => scanNumberToken true [] rest
  | c => if c.isDigit then scanNumberToken false [c] rest else (.stray c, rest)

theorem length_dropWhile_le {α : Type} (p : α → Bool) (l : List α) :
    (l.dropWhile p).length ≤ l.length := (List.dropWhile_suffix p).length_le

theorem length_scanWord_le (word rest : List Char) :
    (scanWord word rest).2.length ≤ rest.length := by
  fun_induction scanWord word rest with
  | case1 | case2 | case4 => simp
  | case3 rest c word ih => exact Nat.le_succ_of_le ih

theorem length_scanExponent_le (literal : Literal) (rest : List Char) :
    (scanExponent literal rest).2.length ≤ rest.length := by
  unfold scanExponent
  cases rest with
  | nil => simp
  | cons c rest =>
    simp only
    split
    · have hd (l : List Char) : (l.dropWhile Char.isDigit).length ≤ l.length :=
        length_dropWhile_le ..
      have ht : rest.tail.length ≤ rest.length := by simp
      split <;> split <;>
        first
        | exact Nat.le_succ_of_le (Nat.le_trans (hd _) ht)
        | exact Nat.le_succ_of_le (hd _)
    · simp

theorem length_scanFraction_le (literal : Literal) (rest : List Char) :
    (scanFraction literal rest).2.length ≤ rest.length := by
  unfold scanFraction
  cases rest with
  | nil => simp
  | cons c rest =>
    simp only
    have hd := length_dropWhile_le Char.isDigit rest
    split
    · split
      · exact Nat.le_succ_of_le hd
      · exact Nat.le_succ_of_le (Nat.le_trans (length_scanExponent_le ..) hd)
    · exact length_scanExponent_le ..

theorem length_scanNumber_le (negative : Bool) (whole rest : List Char) :
    (scanNumber negative whole rest).2.length ≤ rest.length := by
  unfold scanNumber
  split
  · simp
  · split
    · simp
    · exact length_scanFraction_le ..

theorem length_scanText_le (done : List Piece) (rest : List Char) :
    (scanText done rest).2.length ≤ rest.length := by
  fun_induction scanText done rest <;> simp only [List.length_cons, List.length_nil] at * <;> omega

theorem length_scanWordToken_le (tail : String) (rest : List Char) :
    (scanWordToken tail rest).2.length ≤ rest.length := length_scanWord_le ..

theorem length_scanNumberToken_le (negative : Bool) (first rest : List Char) :
    (scanNumberToken negative first rest).2.length ≤ rest.length :=
  Nat.le_trans (length_scanNumber_le ..) (length_dropWhile_le ..)

theorem length_scan_le (c : Char) (rest : List Char) : (scan c rest).2.length ≤ rest.length := by
  unfold scan
  split
  case h_7 => exact length_scanText_le ..
  case h_8 | h_9 | h_10 => exact length_scanWordToken_le ..
  case h_11 => exact length_scanNumberToken_le ..
  case h_12 =>
    split
    · exact length_scanNumberToken_le ..
    · exact Nat.le_refl _
  all_goals exact Nat.le_refl _

def Token.skipFault : Token → Option Fault
  | .word fault => fault
  | .number (.error _) => some .malformed
  | .text _ fault => fault
  | _ => none

def cut (done : List Token) : List Char → List Token
  | [] => done.reverse
  | c :: rest =>
    if isSpace c then cut done rest
    else
      let next := scan c rest
      if next.1.skipFault.isSome then (next.1 :: done).reverse else cut (next.1 :: done) next.2
termination_by text => text.length
decreasing_by
  · simp
  · exact Nat.lt_succ_of_le (length_scan_le ..)

def tokens (text : List Char) : List Token := cut [] text

-- ---------------------------------------------------------------------
-- The values of tokens

/-- Joins the pieces of a string; code units have to be characters or pairs of surrogates. `fault`
says how the string breaks off. -/
def joinPieces (fault : Option Fault) (done : List Char) : List Piece → Except Fault (List Char)
  | [] =>
    match fault with
    | none => .ok done.reverse
    | some fault => .error fault
  | .plain c :: rest => joinPieces fault (c :: done) rest
  | .unit high :: rest =>
    if high < 0xd800 ∨ 0xdfff < high then joinPieces fault (Char.ofNat high :: done) rest
    else if 0xdc00 ≤ high then .error .malformed
    else
      match rest with
      | [] => .error (fault.getD .malformed)
      | .unit low :: rest =>
        if 0xdc00 ≤ low ∧ low ≤ 0xdfff then
          let code := (high - 0xd800) * 0x400 + (low - 0xdc00) + 0x10000
          joinPieces fault (Char.ofNat code :: done) rest
        else .error .malformed
      | .plain _ :: _ => .error .malformed

namespace Token

def misplaced : Token → Fault
  | .beginArray | .beginObject => .mismatched
  | .word fault => fault.getD .mismatched
  | .number (.ok literal) =>
    match literal.value with
    | .ok _ => .mismatched
    | .error fault => fault
  | .number (.error .atEnd) => .truncated
  | .number (.error .early) => .malformed
  | .text pieces fault =>
    match joinPieces fault [] pieces with
    | .ok _ => .mismatched
    | .error fault => fault
  | .endArray | .endObject | .comma | .colon | .stray _ => .malformed

def integer (low high : Int) (token : Token) : Except Fault Int :=
  match token with
  | .number (.ok literal) =>
    match literal.value with
    | .ok (.integer value) =>
      if low ≤ value ∧ value < high then .ok value else .error .mismatched
    | .ok .real => .error .mismatched
    | .error fault => .error fault
  | _ => .error token.misplaced

end Token

end FabricMemory.Json
