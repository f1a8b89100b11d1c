import FabricMemory.Json.Record
import FabricMemory.Json.Token

/-!
# Reading records

A record is read from an object, its fields in any order, or from an array of the fields in the
order of the schema. Reading is one pass: a fold of `step` over the tokens, so that the first
problem in the text decides. A field that is not in the schema is skipped whatever it holds; a stack
of open brackets is all that skipping needs.
-/

namespace FabricMemory.Json

inductive Form where
  | object
  | row
deriving DecidableEq

inductive Bracket where
  | array
  | object
deriving DecidableEq

inductive Skipping where
  | value
  | opened
  | after
  | key
  | colon
deriving DecidableEq

inductive Stage where
  | start
  /-- Right after the opening brace. -/
  | members
  /-- After a comma between members. -/
  | key
  | colon (column : Option Nat)
  /-- A value; without a column it is skipped. -/
  | value (form : Form) (column : Option Nat)
  /-- After a member. -/
  | member
  /-- Right after the bracket that opens a row. -/
  | row
  /-- After so many values of a row. -/
  | rowNext (count : Nat)
  | bytesOpen (form : Form) (column : Nat)
  /-- After a comma between bytes; the bytes so far are in reverse. -/
  | bytesValue (form : Form) (column : Nat) (read : Bytes)
  | bytesNext (form : Form) (column : Nat) (read : Bytes)
  | skip (stack : List Bracket) (skipping : Skipping)
  | closed
deriving DecidableEq

structure Reading where
  found : List (Option Field)
  stage : Stage

namespace Reading

def initial (schema : Schema) : Reading := ⟨schema.map fun _ => none, .start⟩

def take (state : Reading) (form : Form) (column : Nat) (value : Field) : Reading where
  found := state.found.set column (some value)
  stage :=
    match form with
    | .object => .member
    | .row => .rowNext (column + 1)

def fields (schema : Schema) (found : List (Option Field)) : Except Fault (List Field) :=
  (schema.zip found).mapM fun (column, field) =>
    match field.or column.default? with
    | some field => .ok field
    | none => .error .mismatched

/-- A missing field is noticed where the record closes. -/
def close (schema : Schema) (state : Reading) : Except Fault Reading := do
  let _ ← fields schema state.found
  return { state with stage := .closed }

-- ---------------------------------------------------------------------
-- Skipping

def afterSkipped : List Bracket → Stage
  | [] => .member
  | stack => .skip stack .after

def skipValue (stack : List Bracket) : Token → Except Fault Stage
  | .beginArray => .ok (.skip (.array :: stack) .opened)
  | .beginObject => .ok (.skip (.object :: stack) .opened)
  | .endArray | .endObject | .comma | .colon | .stray _ => .error .malformed
  | token =>
    match token.skipFault with
    | none => .ok (afterSkipped stack)
    | some fault => .error fault

def skipKey (stack : List Bracket) : Token → Except Fault Stage
  | .text _ none => .ok (.skip stack .colon)
  | .text _ (some fault) => .error fault
  | _ => .error .malformed

def skipStep (stack : List Bracket) : Skipping → Token → Except Fault Stage
  | .value, token => skipValue stack token
  | .opened, token =>
    match stack, token with
    | .array :: outer, .endArray => .ok (afterSkipped outer)
    | .object :: outer, .endObject => .ok (afterSkipped outer)
    | .object :: _, token => skipKey stack token
    | _, token => skipValue stack token
  | .after, token =>
    match stack, token with
    | .array :: _, .comma => .ok (.skip stack .value)
    | .object :: _, .comma => .ok (.skip stack .key)
    | .array :: outer, .endArray => .ok (afterSkipped outer)
    | .object :: outer, .endObject => .ok (afterSkipped outer)
    | _, _ => .error .malformed
  | .key, token => skipKey stack token
  | .colon, .colon => .ok (.skip stack .value)
  | .colon, _ => .error .malformed

-- ---------------------------------------------------------------------
-- Fields

/-- A key names a column that has not been read yet, or a member to skip. -/
def keyStep (schema : Schema) (state : Reading) : Token → Except Fault Reading
  | .text pieces fault => do
    let name ← joinPieces fault [] pieces
    match schema.findIdx? fun column => column.name.toList = name with
    | none => return { state with stage := .colon none }
    | some column =>
      if (state.found[column]?.join).isSome then throw .mismatched
      else return { state with stage := .colon (some column) }
  | _ => .error .malformed

def fieldStep (schema : Schema) (state : Reading) (form : Form) (column : Nat) (token : Token) :
    Except Fault Reading :=
  match schema[column]?.map Column.type with
  | some (.integer low high) => do
    return state.take form column (.integer (← token.integer low high))
  | some (.bytes _) =>
    match token with
    | .beginArray => .ok { state with stage := .bytesOpen form column }
    | _ => .error token.misplaced
  | none => .error .malformed

def byteStep (state : Reading) (form : Form) (column : Nat) (read : Bytes) (token : Token) :
    Except Fault Reading := do
  let value ← token.integer 0 256
  return { state with stage := .bytesNext form column (UInt8.ofNat value.toNat :: read) }

def count? (schema : Schema) (column : Nat) : Option Nat :=
  match schema[column]?.map Column.type with
  | some (.bytes count) => count
  | _ => none

def isFull (schema : Schema) (column : Nat) (read : Bytes) : Bool :=
  match count? schema column with
  | some count => count ≤ read.length
  | none => false

/-- An array of bytes closes; one with too few is noticed here. -/
def bytesEnd (schema : Schema) (state : Reading) (form : Form) (column : Nat) (read : Bytes) :
    Except Fault Reading :=
  match count? schema column with
  | some count =>
    if read.length = count then .ok (state.take form column (.bytes read.reverse))
    else .error .mismatched
  | none => .ok (state.take form column (.bytes read.reverse))

def step (schema : Schema) (state : Reading) (token : Token) : Except Fault Reading :=
  match state.stage with
  | .start =>
    match token with
    | .beginObject => .ok { state with stage := .members }
    | .beginArray => .ok { state with stage := .row }
    | _ => .error token.misplaced
  | .members =>
    match token with
    | .endObject => close schema state
    | _ => keyStep schema state token
  | .key => keyStep schema state token
  | .colon column =>
    match token with
    | .colon => .ok { state with stage := .value .object column }
    | _ => .error .malformed
  | .value form (some column) => fieldStep schema state form column token
  | .value _ none => do return { state with stage := ← skipValue [] token }
  | .member =>
    match token with
    | .comma => .ok { state with stage := .key }
    | .endObject => close schema state
    | _ => .error .malformed
  | .row =>
    match token with
    | .endArray => close schema state
    | _ => fieldStep schema state .row 0 token
  | .rowNext count =>
    match token with
    | .endArray => close schema state
    | .comma =>
      if count < schema.length then .ok { state with stage := .value .row (some count) }
      else .error .malformed
    | _ => .error .malformed
  | .bytesOpen form column =>
    match token with
    | .endArray => bytesEnd schema state form column []
    | _ => byteStep state form column [] token
  | .bytesValue form column read => byteStep state form column read token
  | .bytesNext form column read =>
    match token with
    | .endArray => bytesEnd schema state form column read
    | .comma =>
      if isFull schema column read then .error .malformed
      else .ok { state with stage := .bytesValue form column read }
    | _ => .error .malformed
  | .skip stack skipping => do return { state with stage := ← skipStep stack skipping token }
  | .closed => .error .malformed

end Reading

def readRecord (schema : Schema) (text : List Char) : Except Fault (List Field) := do
  let state ← (tokens text).foldlM (Reading.step schema) (Reading.initial schema)
  if state.stage = .closed then Reading.fields schema state.found else throw .truncated

def readString {α : Type} (accept : List Char → Option α) (text : List Char) : Except Fault α :=
  match tokens text with
  | [] => .error .truncated
  | .text pieces fault :: rest => do
    match accept (← joinPieces fault [] pieces) with
    | none => throw .mismatched
    | some value => if rest.isEmpty then return value else throw .malformed
  | token :: _ => .error token.misplaced

end FabricMemory.Json
