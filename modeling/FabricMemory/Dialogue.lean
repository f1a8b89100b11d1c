import FabricMemory.Adaptation
import FabricMemory.Log

/-!
# Operations as dialogues

An operation does nothing by itself: it asks, and goes on with the answer. What may be asked is
`Ask`; an operation is a `Dialogue` that may also end in an error. Who answers is no concern of it.
Some operations work `InPlace` on a value of their caller's.
-/

namespace FabricMemory

inductive Ask where
  /-- To write a log line. -/
  | log (line : LogLine)
  /-- For the control channel. -/
  | connect
  /-- For the vendor's part of an export. -/
  | adapt (region : Descriptor)
  /-- To give up the vendor's part of an export. -/
  | release (vendor : VendorInfo)
  /-- Whether a command may go to the driver, and what is to go there. -/
  | fixup {kind : Incoming.Kind} (incoming : Incoming kind)
  /-- To undo what judging a command set up. -/
  | cleanup {kind : Incoming.Kind} (incoming : Incoming kind)
  | submit (request : Request)
  | update (range : RangeUpdate)
deriving DecidableEq

@[reducible] def Ask.Answer : Ask → Type
  | .log _ | .release _ => Unit
  | .connect => Except Error Unit
  | .adapt _ => Except Error Adaptation
  | @fixup kind _ => Vetted kind
  | @cleanup kind _ => Incoming kind
  | .submit _ => Reply
  | .update _ => Option IoError

inductive Dialogue (α : Type) where
  | done (value : α)
  | ask (question : Ask) (next : question.Answer → Dialogue α)

namespace Dialogue

variable {α β γ : Type}

def bind : Dialogue α → (α → Dialogue β) → Dialogue β
  | .done value, next => next value
  | .ask question rest, next => .ask question fun answer => (rest answer).bind next

instance : Monad Dialogue where
  pure := .done
  bind := Dialogue.bind

@[simp] theorem done_bind (value : α) (next : α → Dialogue β) :
    Dialogue.done value >>= next = next value := rfl

@[simp] theorem ask_bind (question : Ask) (rest : question.Answer → Dialogue α)
    (next : α → Dialogue β) :
    Dialogue.ask question rest >>= next = .ask question fun answer => rest answer >>= next := rfl

theorem bind_done (x : Dialogue α) : x >>= Dialogue.done = x := by
  induction x with
  | done value => rfl
  | ask question rest ih => exact congrArg (Dialogue.ask question) (funext ih)

theorem bind_assoc (x : Dialogue α) (f : α → Dialogue β) (g : β → Dialogue γ) :
    x >>= f >>= g = x >>= fun a => f a >>= g := by
  induction x with
  | done value => rfl
  | ask question rest ih => exact congrArg (Dialogue.ask question) (funext ih)

end Dialogue

-- ---------------------------------------------------------------------
-- Operations

abbrev Operation (α : Type) := ExceptT Error Dialogue α

namespace Operation

def ask (question : Ask) : Operation question.Answer :=
  ExceptT.lift (.ask question .done)

def check {α : Type} (result : Except Error α) : Operation α := ExceptT.mk (.done result)

def log (level : Level) (text : String) : Operation Unit := ask (.log ⟨level, text⟩)

def connect : Operation Unit := do
  let opened : Except Error Unit ← ask .connect
  match opened with
  | .ok () => return
  | .error e =>
    log .error ("failed to open control device: " ++ e.message)
    throw e

def adapt (region : Descriptor) : Operation Adaptation := do
  let adapted : Except Error Adaptation ← ask (.adapt region)
  check adapted

/-- The command as the vendor leaves it, if it may go to the driver. -/
def fixup {kind : Incoming.Kind} (incoming : Incoming kind) : Operation (Incoming kind) := do
  let vetted : Vetted kind ← ask (.fixup incoming)
  check vetted.verdict
  return vetted.incoming

def release (vendor : VendorInfo) : Operation Unit := ask (.release vendor)

def cleanup {kind : Incoming.Kind} (incoming : Incoming kind) : Operation (Incoming kind) :=
  ask (.cleanup incoming)

def submit (request : Request) : Operation Reply := ask (.submit request)

def update (range : RangeUpdate) : Operation (Option IoError) := ask (.update range)

end Operation

-- ---------------------------------------------------------------------
-- Working in place

/-- An operation on a value of the caller's. What it has changed of it stays changed when it fails
afterwards. -/
abbrev InPlace (ρ α : Type) := ExceptT Error (StateT ρ Dialogue) α

namespace InPlace

variable {ρ τ α : Type}

def on (procedure : InPlace ρ α) (value : ρ) : Dialogue (Except Error α × ρ) :=
  StateT.run (ExceptT.run procedure) value

def ofOperation (operation : Operation α) : InPlace ρ α :=
  ExceptT.mk fun value => do return (← ExceptT.run operation, value)

instance : MonadLift (ExceptT Error Dialogue) (ExceptT Error (StateT ρ Dialogue)) := ⟨ofOperation⟩

def within (procedure : InPlace ρ α) (get : τ → ρ) (put : τ → ρ → τ) : InPlace τ α :=
  ExceptT.mk fun whole => do
    let (result, part) ← procedure.on (get whole)
    return (result, put whole part)

/-- For a caller that has no use for the value after a failure. -/
def returning (procedure : InPlace ρ α) (value : ρ) : Operation (α × ρ) :=
  ExceptT.mk do
    let (result, value) ← procedure.on value
    return result.map (·, value)

end InPlace

end FabricMemory
