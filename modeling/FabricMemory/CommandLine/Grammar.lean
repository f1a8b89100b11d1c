import FabricMemory.Eid.Text
import FabricMemory.Flags
import FabricMemory.Ownership

/-!
# Reading arguments by a table

A grammar lists the options, flags and operands of a command. Arguments are taken from left to right
and the first problem decides: `read` stops where the table does not fit, or where help or the
version is asked for. An argument that is no option, and for which no operand is left, ends reading
and is handed back with all that follow it.
-/

namespace FabricMemory.CommandLine

inductive Kind where
  | path
  | eid
  | long
  | word
  /-- The only kind whose text may begin with a dash. -/
  | integer
  | ownership
deriving DecidableEq, Repr

inductive Value where
  | path (value : Path)
  | eid (value : Eid)
  | long (value : UInt64)
  | word (value : UInt32)
  | integer (value : Int32)
  | ownership (value : Ownership)
deriving DecidableEq

namespace Value

def path? : Value → Option Path
  | .path value => some value
  | _ => none

def eid? : Value → Option Eid
  | .eid value => some value
  | _ => none

def long? : Value → Option UInt64
  | .long value => some value
  | _ => none

def word? : Value → Option UInt32
  | .word value => some value
  | _ => none

def integer? : Value → Option Int32
  | .integer value => some value
  | _ => none

end Value

def Kind.parse (kind : Kind) (text : String) : Option Value :=
  match kind with
  | .path => if text = "" then none else some (.path (.ofString text))
  | .eid => (Eid.parse text).toOption.map .eid
  | .long => (Numeral.literal (wordBound 64) text.toList).toOption.map (.long ∘ UInt64.ofNat)
  | .word => (Numeral.literal (wordBound 32) text.toList).toOption.map (.word ∘ UInt32.ofNat)
  | .integer => (Numeral.signed (wordBound 31) text.toList).toOption.map (.integer ∘ Int32.ofInt)
  | .ownership => (Ownership.parse text).toOption.map .ownership

/-- An option with a value, written `--name value` or `--name=value`. -/
structure OptionRule where
  name : String
  kind : Kind
  /-- Whether it may be given more than once. -/
  repeats : Bool := false
deriving DecidableEq, Repr

def OptionRule.once (name : String) (kind : Kind) : OptionRule := { name := name, kind := kind }

def OptionRule.many (name : String) (kind : Kind) : OptionRule :=
  { name := name, kind := kind, repeats := true }

structure Grammar where
  options : List OptionRule := []
  flags : List String := []
  operands : List Kind := []
  /-- Whether `--version` and `-V` are known. -/
  version : Bool := false
deriving DecidableEq, Repr

inductive Stop where
  | usage
  | help
  | version
deriving DecidableEq, Repr

structure Given where
  options : List (String × Value) := []
  flags : List String := []
  operands : List Value := []
  rest : List String := []
deriving DecidableEq

-- ---------------------------------------------------------------------
-- Shapes of arguments

inductive Shape where
  /-- Two dashes: what follows holds no more options. -/
  | separator
  | long (name : String) (attached : Option String)
  | short (letter : Char)
  | plain
deriving DecidableEq, Repr

def Shape.ofText (text : List Char) : Shape :=
  match text with
  | ['-', '-'] => .separator
  | '-' :: '-' :: body =>
    match body.span (· ≠ '=') with
    | (name, []) => .long (String.ofList name) none
    | (name, _ :: value) => .long (String.ofList name) (some (String.ofList value))
  | '-' :: letter :: _ => .short letter
  | _ => .plain

-- ---------------------------------------------------------------------
-- Taking what is given

namespace Given

def addFlag (given : Given) (name : String) : Except Stop Given :=
  if given.flags.contains name then .error .usage
  else .ok { given with flags := given.flags ++ [name] }

def addOption (given : Given) (rule : OptionRule) (text : String) : Except Stop Given :=
  match rule.kind.parse text with
  | none => .error .usage
  | some value =>
    if !rule.repeats && (given.options.lookup rule.name).isSome then .error .usage
    else .ok { given with options := given.options ++ [(rule.name, value)] }

/-- An option whose value is the argument after it, which may not look like another option. -/
def addFollowing (given : Given) (rule : OptionRule) (text : String) : Except Stop Given :=
  if rule.kind = .integer ∨ Shape.ofText text.toList = .plain then given.addOption rule text
  else .error .usage

def addOperand (given : Given) (kind : Kind) (text : String) : Except Stop Given :=
  match kind.parse text with
  | none => .error .usage
  | some value => .ok { given with operands := given.operands ++ [value] }

end Given

namespace Grammar

def rule? (grammar : Grammar) (name : String) : Option OptionRule :=
  grammar.options.find? (·.name = name)

def nextOperand? (grammar : Grammar) (given : Given) : Option Kind :=
  grammar.operands[given.operands.length]?

/-- After the separator everything is an operand. -/
def readOperands (grammar : Grammar) (given : Given) : List String → Except Stop Given
  | [] => .ok given
  | text :: rest =>
    match grammar.nextOperand? given with
    | none => .error .usage
    | some kind =>
      match given.addOperand kind text with
      | .error stop => .error stop
      | .ok given => grammar.readOperands given rest

/-- A long argument that is no option: a flag, or a request that ends reading. -/
def longFlag (grammar : Grammar) (given : Given) (name : String) (attached : Option String) :
    Except Stop Given :=
  if attached.isSome then .error .usage
  else if grammar.flags.contains name then given.addFlag name
  else if name = "help" then .error .help
  else if grammar.version ∧ name = "version" then .error .version
  else .error .usage

def shortStop (grammar : Grammar) (letter : Char) : Stop :=
  if letter = 'h' then .help
  else if grammar.version ∧ letter = 'V' then .version
  else .usage

def read (grammar : Grammar) (given : Given) : List String → Except Stop Given
  | [] => .ok given
  | text :: rest =>
    match Shape.ofText text.toList with
    | .separator => grammar.readOperands given rest
    | .short letter => .error (grammar.shortStop letter)
    | .plain =>
      match grammar.nextOperand? given with
      | none => .ok { given with rest := text :: rest }
      | some kind =>
        match given.addOperand kind text with
        | .error stop => .error stop
        | .ok given => grammar.read given rest
    | .long name attached =>
      match grammar.rule? name with
      | none =>
        match grammar.longFlag given name attached with
        | .error stop => .error stop
        | .ok given => grammar.read given rest
      | some rule =>
        match attached with
        | some value =>
          match given.addOption rule value with
          | .error stop => .error stop
          | .ok given => grammar.read given rest
        | none =>
          match rest with
          | [] => .error .usage
          | value :: rest =>
            match given.addFollowing rule value with
            | .error stop => .error stop
            | .ok given => grammar.read given rest

end Grammar

-- ---------------------------------------------------------------------
-- Looking up what was given

namespace Given

variable {α : Type}

def value? (given : Given) (take : Value → Option α) (name : String) : Option α :=
  (given.options.lookup name).bind take

/-- All values of an option that repeats. -/
def values (given : Given) (take : Value → Option α) (name : String) : List α :=
  given.options.filterMap fun (key, value) => if key = name then take value else none

def flagsOf (given : Given) (family : FlagFamily) (named : List (String × String)) : Flags family :=
  Flags.ofNames family (named.filterMap fun (argument, name) =>
    if given.flags.contains argument then some name else none)

end Given

end FabricMemory.CommandLine
