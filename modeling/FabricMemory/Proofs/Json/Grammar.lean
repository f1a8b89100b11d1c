import FabricMemory.Proofs.Json.Records

/-!
# The grammar of JSON, and what presents a record

First characters: how each token is written, and what may stand between tokens. Then tokens: values,
and documents that a record may be read from. A document `Presents` fields if it gives each column
its field, once, or leaves out a column that its default stands in for; where one is `Flawed`, it
presents none.
-/

namespace FabricMemory.Json

-- ---------------------------------------------------------------------
-- Numbers

structure Digits (digits : List Char) : Prop where
  nonempty : digits ≠ []
  isDigit : ∀ c ∈ digits, c.isDigit = true

inductive Fraction : List Char → List Nat → Prop
  | none : Fraction [] []
  | some {digits : List Char} :
      Digits digits → Fraction ('.' :: digits) (digitValues digits)

inductive Sign : List Char → Bool → Prop
  | none : Sign [] false
  | plus : Sign ['+'] false
  | minus : Sign ['-'] true

inductive Exponent : List Char → Option (Bool × List Nat) → Prop
  | none : Exponent [] none
  | some {letter : Char} {sign digits : List Char} {negative : Bool} :
      letter = 'e' ∨ letter = 'E' → Sign sign negative → Digits digits →
      Exponent (letter :: (sign ++ digits)) (some (negative, digitValues digits))

/-- A zero in front stands alone. -/
structure Whole (digits : List Char) : Prop extends Digits digits where
  alone : digits.head? = some '0' → digits = ['0']

inductive Decimal : List Char → Literal → Prop
  | mk {whole fraction exponent : List Char} {parts : List Nat} {power : Option (Bool × List Nat)}
      (negative : Bool) : Whole whole → Fraction fraction parts → Exponent exponent power →
      Decimal ((if negative then ['-'] else []) ++ (whole ++ (fraction ++ exponent)))
        ⟨negative, digitValues whole, parts, power⟩

-- ---------------------------------------------------------------------
-- Tokens

inductive Spelling : List Char → List Piece → Prop
  | done : Spelling [] []
  | plain {c : Char} {rest : List Char} {pieces : List Piece} :
      isPlain c = true → Spelling rest pieces → Spelling (c :: rest) (.plain c :: pieces)
  | escape {c meant : Char} {rest : List Char} {pieces : List Piece} :
      escaped? c = some meant → Spelling rest pieces →
      Spelling ('\\' :: c :: rest) (.plain meant :: pieces)
  | unit {a b c d : Char} {code : Nat} {rest : List Char} {pieces : List Piece} :
      codeUnit? a b c d = some code → Spelling rest pieces →
      Spelling ('\\' :: 'u' :: a :: b :: c :: d :: rest) (.unit code :: pieces)

def marks : List (Char × Token) :=
  [('[', .beginArray), (']', .endArray), ('\x7b', .beginObject), ('\x7d', .endObject),
   (',', .comma), (':', .colon)]

inductive Written : List Char → Token → Prop
  | mark {c : Char} {token : Token} : (c, token) ∈ marks → Written [c] token
  | word {word : String} : word ∈ ["null", "true", "false"] → Written word.toList (.word none)
  | number {text : List Char} {literal : Literal} :
      Decimal text literal → Written text (.number (.ok literal))
  | text {inner : List Char} {pieces : List Piece} :
      Spelling inner pieces → Written ('"' :: (inner ++ ['"'])) (.text pieces none)

inductive Lexes : List Char → List Token → Prop
  | done : Lexes [] []
  | blank {c : Char} {text : List Char} {found : List Token} :
      c ∈ [' ', '\t', '\n', '\r'] → Lexes text found → Lexes (c :: text) found
  | token {front text : List Char} {token : Token} {found : List Token} :
      Written front token → ((∃ literal, token = .number literal) → Breaks text) →
      Lexes text found → Lexes (front ++ text) (token :: found)

-- ---------------------------------------------------------------------
-- Values

def rowTokens (items : List (List Token)) : List Token :=
  .beginArray :: (listed items ++ [.endArray])

abbrev Entry := List Piece × List Token

def entryTokens (entry : Entry) : List Token := .text entry.1 none :: .colon :: entry.2

def objectTokens (entries : List Entry) : List Token :=
  .beginObject :: (listed (entries.map entryTokens) ++ [.endObject])

inductive Value : List Token → Prop
  | word : Value [.word none]
  | number (literal : Literal) : Value [.number (.ok literal)]
  | text (pieces : List Piece) : Value [.text pieces none]
  | row {items : List (List Token)} : (∀ item ∈ items, Value item) → Value (rowTokens items)
  | object {entries : List Entry} :
      (∀ entry ∈ entries, Value entry.2) → Value (objectTokens entries)

/-- The characters that pieces stand for: units are characters, or pairs of surrogates. -/
inductive Spells : List Piece → List Char → Prop
  | done : Spells [] []
  | plain {c : Char} {pieces : List Piece} {name : List Char} :
      Spells pieces name → Spells (.plain c :: pieces) (c :: name)
  | unit {code : Nat} {pieces : List Piece} {name : List Char} :
      code < 0xd800 ∨ 0xdfff < code → Spells pieces name →
      Spells (.unit code :: pieces) (Char.ofNat code :: name)
  | pair {high low : Nat} {pieces : List Piece} {name : List Char} :
      0xd800 ≤ high → high < 0xdc00 → 0xdc00 ≤ low → low ≤ 0xdfff → Spells pieces name →
      Spells (.unit high :: .unit low :: pieces)
        (Char.ofNat ((high - 0xd800) * 0x400 + (low - 0xdc00) + 0x10000) :: name)

-- ---------------------------------------------------------------------
-- Documents

structure Member where
  key : List Piece
  name : List Char
  value : List Token

def Member.entry (member : Member) : Entry := (member.key, member.value)

inductive Document where
  | object (members : List Member)
  | row (items : List (List Token))

namespace Document

def tokens : Document → List Token
  | object members => objectTokens (members.map Member.entry)
  | row items => rowTokens items

def Formed : Document → Prop
  | object members => ∀ member ∈ members, Spells member.key member.name ∧ Value member.value
  | row items => ∀ item ∈ items, Value item

def Stands (document : Document) (text : List Char) : Prop :=
  document.Formed ∧ Lexes text document.tokens

/-- The values that are given for a column: those of the members under its name, or the item in its
place. -/
def values (index : Nat) (column : Column) : Document → List (List Token)
  | object members =>
    (members.filter fun member => member.name = column.name.toList).map Member.value
  | row items => items[index]?.toList

/-- A row has no more items than there are columns. -/
def Within (schema : Schema) : Document → Prop
  | object _ => True
  | row items => items.length ≤ schema.length

end Document

structure Presents (schema : Schema) (fields : List Field) (document : Document) : Prop where
  within : document.Within schema
  gives {index : Nat} {column : Column} {field : Field} :
    schema[index]? = some column → fields[index]? = some field →
      document.values index column = [field.tokens] ∨
        document.values index column = [] ∧ column.default? = some field

/-- The value is of the kind of the column, but not in its bounds. -/
inductive Exceeds : FieldType → List Token → Prop
  | integer {low high value : Int} :
      value < low ∨ high ≤ value → Exceeds (.integer low high) [integerToken value]
  | count {count : Nat} {items : List (List Token)} :
      (∀ item ∈ items, Value item) → items.length ≠ count →
      Exceeds (.bytes (some count)) (rowTokens items)
  | element {count? : Option Nat} {items : List (List Token)} {value : Int} :
      (∀ item ∈ items, Value item) → [integerToken value] ∈ items → value < 0 ∨ 255 < value →
      Exceeds (.bytes count?) (rowTokens items)

inductive Flawed (schema : Schema) (document : Document) : Prop
  | missing {index : Nat} {column : Column} :
      schema[index]? = some column → column.default? = none →
      document.values index column = [] → Flawed schema document
  | repeated {index : Nat} {column : Column} :
      schema[index]? = some column → 1 < (document.values index column).length →
      Flawed schema document
  | exceeding {index : Nat} {column : Column} {value : List Token} :
      schema[index]? = some column → value ∈ document.values index column →
      Exceeds column.type value → Flawed schema document
  | surplus : ¬ document.Within schema → Flawed schema document

end FabricMemory.Json
